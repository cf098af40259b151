import NodeModel.Source.Text

/-! The types and expressions of emitted classes with the names marked in them that have to come from
elsewhere. The marks change nothing in the text, and all of it is written out. -/
namespace NodeModel.Source

/-- A name that emitted code does not define where it uses it. -/
inductive Symbol where
  | cell
  | shared
  | weak
  | externalCopy
  | mapCell
  | external (name : String)
  | node (target : Target)

def Symbol.text : Symbol → String
  | .cell => "OnceCell"
  | .shared => "Rc"
  | .weak => "Weak"
  | .externalCopy => "ExternalCopy"
  | .mapCell => "map_cell"
  | .external name => name
  | .node target => target.render

inductive Piece where
  | plain (text : String)
  | symbol (symbol : Symbol)

def Piece.text : Piece → String
  | .plain text => text
  | .symbol used => used.text

/-- Emitted text with its symbols marked. -/
abbrev Code := List Piece

namespace Code

def text (code : Code) : String := String.join (code.map (·.text))

def Within (code : Code) (allowed : Symbol → Prop) : Prop :=
  ∀ symbol, Piece.symbol symbol ∈ code → allowed symbol

variable {allowed : Symbol → Prop}

@[simp] theorem text_nil : text [] = "" := rfl

@[simp] theorem text_cons (piece : Piece) (code : Code) :
    text (piece :: code) = piece.text ++ text code := String.join_cons ..

@[simp] theorem text_append (code rest : Code) : text (code ++ rest) = text code ++ text rest := by
  induction code with
  | nil => simp
  | cons piece code ih => simp [ih,String.append_assoc]

theorem Within.mono {code : Code} {more : Symbol → Prop} (inside : code.Within allowed)
    (weaker : ∀ symbol, allowed symbol → more symbol) : code.Within more :=
  fun symbol used => weaker symbol (inside symbol used)

@[simp] theorem within_nil : Within [] allowed := by simp [Within]

@[simp] theorem within_plain (text : String) (code : Code) :
    Within (.plain text :: code) allowed ↔ Within code allowed := by simp [Within]

@[simp] theorem within_symbol (symbol : Symbol) (code : Code) :
    Within (.symbol symbol :: code) allowed ↔ allowed symbol ∧ Within code allowed := by
  simp [Within]

@[simp] theorem within_append (code rest : Code) :
    Within (code ++ rest) allowed ↔ Within code allowed ∧ Within rest allowed := by
  simp only [Within,List.mem_append,or_imp,forall_and]

end Code

def pointerCode (weak : Bool) (target : Target) : Code :=
  [.symbol (if weak then .weak else .shared),.plain "<",.symbol (.node target),.plain ">"]

def ValueType.code : ValueType → Code
  | .text => [.plain "String"]
  | .flag => [.plain "bool"]
  | .number => [.plain "i64"]
  | .external name => [.symbol .shared,.plain "<",.symbol (.external name),.plain ">"]
  | .edge weak target => pointerCode weak target
  | .edges weak target => [.plain "Vec<"] ++ pointerCode weak target ++ [.plain ">"]

def Storage.code (type : Code) : Storage → Code
  | .plain => type
  | .option => [.plain "Option<"] ++ type ++ [.plain ">"]
  | .cell => [.symbol .cell,.plain "<"] ++ type ++ [.plain ">"]

def Param.code (param : Param) : Code :=
  if param.optional then [.plain "Option<"] ++ param.type.code ++ [.plain ">"] else param.type.code

def Getter.typeCode : Getter → Code
  | .upgraded target => [.plain "Option<",.symbol .shared,.plain "<",.symbol (.node target),.plain ">>"]
  | .text false => [.plain "Option<&str>"]
  | .text true => [.plain "&str"]
  | .flag false => [.plain "Option<bool>"]
  | .flag true => [.plain "bool"]
  | .number false => [.plain "Option<i64>"]
  | .number true => [.plain "i64"]
  | .slice weak target => [.plain "&["] ++ pointerCode weak target ++ [.plain "]"]
  | .borrowed type => [.plain "Option<&"] ++ type.code ++ [.plain ">"]

def Setter.typeCode : Setter → Code
  | .downgraded target => [.plain "&",.symbol .shared,.plain "<",.symbol (.node target),.plain ">"]
  | .direct type => type.code

theorem text_pointerCode (weak : Bool) (target : Target) :
    (pointerCode weak target).text = pointer weak target := by
  cases weak <;> simp [pointerCode,pointer,Piece.text,Symbol.text,ToString.toString,
    String.append_assoc]

theorem ValueType.text_code (type : ValueType) : type.code.text = type.render := by
  -- Compared by characters, as a mark may stand in the middle of a literal.
  refine String.toList_inj.mp ?_
  cases type <;> simp [code,render,Piece.text,Symbol.text,text_pointerCode,ToString.toString]

theorem Storage.text_code (type : Code) (storage : Storage) :
    (storage.code type).text = storage.wrap type.text := by
  refine String.toList_inj.mp ?_
  cases storage <;> simp [code,wrap,Piece.text,Symbol.text,ToString.toString]

theorem Param.text_code (param : Param) :
    param.text = fieldIdent param.field ++ ": " ++ param.code.text := by
  unfold text code
  cases param.optional <;> simp [Piece.text,ValueType.text_code,ToString.toString,
    String.append_assoc]

theorem Getter.text_typeCode (getter : Getter) : getter.typeCode.text = getter.type := by
  refine String.toList_inj.mp ?_
  unfold typeCode type
  split <;> simp [Piece.text,Symbol.text,text_pointerCode,ValueType.text_code,ToString.toString]

theorem Setter.text_typeCode (setter : Setter) : setter.typeCode.text = setter.type := by
  refine String.toList_inj.mp ?_
  cases setter <;> simp [typeCode,type,Piece.text,Symbol.text,ValueType.text_code,
    ToString.toString]

def Method.code : Method → Code
  | .upgrade => [.plain ".and_then(",.symbol .weak,.plain "::upgrade)"]
  | method => [.plain method.text]

def Function.code (argument : Code) : Function → Code
  | .present => [.plain "Some("] ++ argument ++ [.plain ")"]
  | .shared => [.symbol .shared,.plain "::new("] ++ argument ++ [.plain ")"]
  | .downgrade => [.symbol .shared,.plain "::downgrade("] ++ argument ++ [.plain ")"]
  | .once => [.plain "std::iter::once(&"] ++ argument ++ [.plain ")"]
  | .externalCopy type => [.plain "<",.symbol (.external type),.plain " as ",.symbol .externalCopy,
      .plain ">::external_copy("] ++ argument ++ [.plain ")"]

def Expr.code : Expr → Code
  | .member field => [.plain s!"self.{fieldIdent field}"]
  | .param field => [.plain (fieldIdent field)]
  | .variable name => [.plain name]
  | .absent => [.plain "None"]
  | .emptyCell => [.symbol .cell,.plain "::new()"]
  | .call receiver method => receiver.code ++ method.code
  | .apply function argument => function.code argument.code
  | .map receiver name body => receiver.code ++ [.plain s!".map(|{name}| "] ++ body.code ++ [.plain ")"]
  | .mapCell cell name body => [.symbol .mapCell,.plain "(&"] ++ cell.code ++
      [.plain s!", |{name}| "] ++ body.code ++ [.plain ")"]
  | .block name value body => [.plain s!"\x7b let {name} = &"] ++ value.code ++ [.plain "; "] ++
      body.code ++ [.plain " \x7d"]
  | .unwrapOr value fallback => value.code ++ [.plain s!".unwrap_or({fallback.text})"]

theorem Method.text_code (method : Method) : method.code.text = method.text := by
  cases method <;> simp [code,text,Piece.text,Symbol.text]

theorem Function.text_code (argument : Code) (function : Function) :
    (function.code argument).text = function.text argument.text := by
  refine String.toList_inj.mp ?_
  unfold code Function.text
  cases function <;> simp [Piece.text,Symbol.text,ToString.toString]

theorem Expr.text_code (expr : Expr) : expr.code.text = expr.render := by
  refine String.toList_inj.mp ?_
  induction expr with
  | member | param | «variable» | absent | emptyCell =>
    unfold code render
    simp [Piece.text,Symbol.text,ToString.toString]
  | call receiver method ih =>
    unfold code render
    simp [Method.text_code,ih]
  | apply function argument ih =>
    unfold code render
    simp [Function.text_code,String.toList_inj.mp ih]
  | map receiver name body ihr ihb =>
    unfold code render
    simp [Piece.text,ToString.toString,ihr,ihb]
  | mapCell cell name body ihc ihb =>
    unfold code render
    simp [Piece.text,Symbol.text,ToString.toString,ihc,ihb]
  | block name value body ihv ihb =>
    unfold code render
    simp [Piece.text,ToString.toString,ihv,ihb]
  | unwrapOr value fallback ih =>
    unfold code render
    simp [Piece.text,ToString.toString,ih]

def Accessor.codes (accessor : Accessor) : List Code :=
  [accessor.getter.typeCode,(accessor.getter.expr accessor.field).code,accessor.setter.typeCode,
    accessor.setter.expr.code]

def ClassItem.codes (item : ClassItem) : List Code :=
  item.fields.map (fun field => field.storage.code field.type.code) ++
  item.params.map (·.code) ++
  item.initials.map (·.2.code) ++
  item.accessors.flatMap (·.codes) ++
  item.children.map (·.source.code) ++
  item.clones.map (·.expr.code)

def Occurs (text : String) (lines : List String) : Prop :=
  ∃ line ∈ lines, text.toList <:+: line.toList

theorem infix_between (before text after : String) :
    text.toList <:+: (before ++ text ++ after).toList :=
  ⟨before.toList,after.toList,by simp⟩

theorem infix_behind (before text : String) : text.toList <:+: (before ++ text).toList :=
  ⟨before.toList,[],by simp⟩

theorem infix_before (text after : String) : text.toList <:+: (text ++ after).toList :=
  ⟨[],after.toList,by simp⟩

theorem infix_intercalate {text : String} {texts : List String} (mark : String)
    (member : text ∈ texts) : text.toList <:+: (mark.intercalate texts).toList := by
  induction texts with
  | nil => simp at member
  | cons first texts ih =>
    cases texts with
    | nil =>
      cases List.mem_singleton.mp member
      simp
    | cons next texts =>
      rw [String.intercalate_cons_cons]
      rcases List.mem_cons.mp member with rfl | later
      · exact (infix_before _ mark).trans (infix_before _ _)
      · exact (ih later).trans (infix_behind (first ++ mark) _)

namespace Occurs

variable {text : String} {lines : List String}

theorem mono {more : List String} (occurs : Occurs text lines) (inside : lines ⊆ more) :
    Occurs text more := by
  obtain ⟨line,member,part⟩ := occurs
  exact ⟨line,inside member,part⟩

theorem indented (occurs : Occurs text lines) : Occurs text (Source.indented lines) := by
  obtain ⟨line,member,part⟩ := occurs
  refine ⟨_,List.mem_map_of_mem member,?_⟩
  split
  next empty => rwa [String.isEmpty_iff.mp empty] at part
  next => exact part.trans (infix_behind "    " line)

theorem braced (head : String) (occurs : Occurs text lines) :
    Occurs text (Source.braced head lines) :=
  occurs.indented.mono fun _ member => by simp [Source.braced,member]

theorem of_head {head : String} (part : text.toList <:+: head.toList) (body : List String) :
    Occurs text (Source.braced head body) :=
  ⟨opening head,by simp [Source.braced],part.trans (infix_before _ _)⟩

theorem append_left (occurs : Occurs text lines) (rest : List String) :
    Occurs text (lines ++ rest) := occurs.mono (List.subset_append_left _ _)

theorem append_right (occurs : Occurs text lines) (before : List String) :
    Occurs text (before ++ lines) := occurs.mono (List.subset_append_right _ _)

theorem flatMap {α : Type} {items : List α} {item : α} {make : α → List String}
    (occurs : Occurs text (make item)) (member : item ∈ items) :
    Occurs text (items.flatMap make) :=
  occurs.mono fun _ inside => List.mem_flatMap.mpr ⟨item,member,inside⟩

end Occurs

theorem StructField.occurs (field : StructField) :
    Occurs (field.storage.code field.type.code).text field.lines := by
  rw [Storage.text_code,ValueType.text_code]
  exact ⟨_,List.mem_append_right _ (List.mem_singleton_self _),infix_between _ _ _⟩

theorem Accessor.occurs (accessor : Accessor) {code : Code} (member : code ∈ accessor.codes) :
    Occurs code.text accessor.lines := by
  have getter {text : String} (occurs : Occurs text accessor.getterLines) :
      Occurs text accessor.lines := ((occurs.append_left _).append_left _).append_left _
  have setter {text : String} (occurs : Occurs text accessor.setterLines) :
      Occurs text accessor.lines := (occurs.append_right _).append_left _
  simp only [codes,List.mem_cons,List.not_mem_nil,or_false] at member
  rcases member with rfl | rfl | rfl | rfl
  · rw [Getter.text_typeCode]
    exact getter (.append_right (.of_head (infix_behind _ _) _) _)
  · rw [Expr.text_code]
    exact getter (.append_right (.braced _ ⟨_,List.mem_singleton_self _,List.infix_refl _⟩) _)
  · rw [Setter.text_typeCode]
    exact setter (.of_head ((infix_between _ _ _).trans (infix_before _ _)) _)
  · rw [Expr.text_code]
    exact setter (.braced _ ⟨_,List.mem_cons_self,(infix_between _ _ _).trans (infix_before _ _)⟩)

theorem infix_initialLine (field : Model.Field) :
    (initialExpr field).render.toList <:+:
      (initialLine (field.name,initialExpr field)).toList := by
  unfold initialExpr
  cases Storage.of field with
  | plain => exact infix_before _ _
  | option =>
    dsimp only
    split
    · exact infix_before _ _
    · exact infix_between _ _ _
  | cell => exact infix_between _ _ _

namespace ClassItem

variable {model : Model} {item : ClassItem} {text : String}

theorem constructorLines_part : item.constructorLines <:+: item.methodLines := by
  unfold methodLines
  iterate 6 apply List.infix_append_of_infix_left
  exact List.infix_append_right

theorem accessorLines_part : item.accessors.flatMap (·.lines) <:+: item.methodLines := by
  unfold methodLines
  iterate 4 apply List.infix_append_of_infix_left
  exact List.infix_append_right

theorem childrenLines_part : item.childrenLines <:+: item.methodLines := by
  unfold methodLines
  iterate 3 apply List.infix_append_of_infix_left
  exact List.infix_append_right

theorem cloneLines_part : item.cloneLines <:+: item.methodLines := by
  unfold methodLines
  apply List.infix_append_of_infix_left
  exact List.infix_append_right

theorem occurs_of_method {part : List String} (inside : part <:+: item.methodLines)
    (occurs : Occurs text part) : Occurs text item.lines :=
  ((((occurs.mono inside.subset).braced _).append_left _).append_right _).append_left _

/-- Every type and expression of a class is written out in its lines. -/
theorem occurs {cls : Model.Class} {code : Code} (member : code ∈ (ClassItem.of model cls).codes) :
    Occurs code.text (ClassItem.of model cls).lines := by
  simp only [codes,List.mem_append] at member
  rcases member with ((((stored | param) | initial) | access) | child) | clone
  · obtain ⟨field,listed,rfl⟩ := List.mem_map.mp stored
    exact (((((field.occurs.flatMap listed).braced _).append_left _).append_right _).append_left
      _).append_left _
  · obtain ⟨param,listed,rfl⟩ := List.mem_map.mp param
    refine occurs_of_method constructorLines_part (.of_head (.trans ?_ (infix_between _ _ _)) _)
    refine .trans ?_ (infix_intercalate ", " (List.mem_map_of_mem listed))
    rw [Param.text_code]
    exact infix_behind _ _
  · obtain ⟨entry,listed,rfl⟩ := List.mem_map.mp initial
    obtain ⟨field,_,rfl⟩ := List.mem_map.mp listed
    rw [Expr.text_code]
    exact occurs_of_method constructorLines_part (.braced _ (.braced _
      ⟨_,List.mem_map_of_mem listed,infix_initialLine field⟩))
  · obtain ⟨accessor,listed,inside⟩ := List.mem_flatMap.mp access
    exact occurs_of_method accessorLines_part ((accessor.occurs inside).flatMap listed)
  · obtain ⟨loop,listed,rfl⟩ := List.mem_map.mp child
    rw [Expr.text_code]
    have head : Occurs loop.source.render loop.lines := .of_head (infix_behind _ _) _
    exact occurs_of_method childrenLines_part ((head.flatMap listed).braced _)
  · obtain ⟨entry,listed,rfl⟩ := List.mem_map.mp clone
    rw [Expr.text_code]
    have line : Occurs entry.expr.render ((ClassItem.of model cls).clones.map (·.line)) :=
      ⟨_,List.mem_map_of_mem listed,infix_between _ _ _⟩
    exact occurs_of_method cloneLines_part (((line.braced _).braced _).append_right _)

end ClassItem

end NodeModel.Source
