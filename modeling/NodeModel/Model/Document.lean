import NodeModel.Model.Basic
import NodeModel.Schema.Document

/-! Models as JSON documents. -/
namespace NodeModel.Model

open Json (Reader shownIf shownSome needed spare)

def Policy.toJson (policy : Policy) : Json := .object [
  ("optional", .boolean policy.optional),
  ("constructor_bound", .boolean policy.bound),
  ("visitable", .boolean policy.visitable),
  ("copy_mode", policy.copyMode.toJson)]

def Default.documentName : Default → String
  | .absent => "absent"
  | .isFalse => "false"
  | .zero => "zero"
  | .emptyText => "empty_string"
  | .emptyList => "empty_list"
  | .unset => "unset"

def Default.toJson (value : Default) : Json := .string value.documentName

def Field.toJson (field : Field) : Json := .object <|
  [("name", .string field.name), ("kind", field.kind.toJson), ("policy", field.policy.toJson),
    ("declared_in", .string field.declaredIn)] ++
  shownSome "default" Default.toJson field.default ++
  shownSome "doc" .string field.doc

def Param.toJson (param : Param) : Json := .object <|
  ("field", .string param.field) :: shownIf param.optional "optional" (.boolean true)

def Slot.toJson (slot : Slot) : Json := .object <|
  ("field", .string slot.field) :: shownIf slot.list "list" (.boolean true)

def CloneStep.documentName : CloneStep → String
  | .copyValue => "copy_value"
  | .cloneChild => "clone_child"
  | .cloneList => "clone_list"
  | .shareReference => "share_reference"
  | .reset => "reset"
  | .externalCopy _ => "external_copy"

/-- The step stands beside the field, with the type it copies if it copies one. -/
def CloneRule.toJson (rule : CloneRule) : Json := .object <|
  [("field", .string rule.field), ("step", .string rule.step.documentName)] ++
  match rule.step with
  | .externalCopy type => [("type_name", .string type)]
  | _ => []

def Mangle.toJson (mangle : Mangle) : Json := .object <|
  [("name_field", .string mangle.nameField), ("flag_field", .string mangle.flagField)] ++
  shownIf mangle.nameOptional "name_optional" (.boolean true) ++
  shownIf mangle.flagOptional "flag_optional" (.boolean true)

def Indicators.toJson (indicators : Indicators) : Json := .object <|
  shownIf indicators.generic "generic" (.boolean true) ++
  shownIf indicators.unique "unique" (.boolean true) ++
  shownSome "mangle" Mangle.toJson indicators.mangle

def Class.toJson (cls : Class) : Json := .object <|
  [("name", .string cls.name)] ++
  shownSome "superclass" .string cls.superclass ++
  [("chain", Json.texts cls.chain)] ++
  shownIf (!cls.subclasses.isEmpty) "subclasses" (Json.texts cls.subclasses) ++
  [("fields", .array (cls.fields.map (·.toJson))),
    ("constructor", .array (cls.params.map (·.toJson))),
    ("traversal", .array (cls.traversal.map (·.toJson))),
    ("clone", .array (cls.cloneRules.map (·.toJson))),
    ("indicators", cls.indicators.toJson)] ++
  shownSome "doc" .string cls.doc

end Model

def Model.toJson (model : Model) : Json := .object <|
  Json.shownSome "root" .string model.root ++
  Json.shownIf (!model.externals.isEmpty) "externals" (Json.texts model.externals) ++
  [("classes", .array (model.classes.map (·.toJson)))]

namespace Model

open Json (Reader shownIf shownSome needed spare)

def Policy.reader : Reader Policy := Json.record "ResolvedPolicy" ⟨false, true, true, .deep⟩ [
  needed "optional" Json.flag fun policy value => { policy with optional := value },
  needed "constructor_bound" Json.flag fun policy value => { policy with bound := value },
  needed "visitable" Json.flag fun policy value => { policy with visitable := value },
  needed "copy_mode" CopyMode.reader fun policy value => { policy with copyMode := value }]

def Default.reader : Reader Default :=
  Json.choice ([Default.absent, .isFalse, .zero, .emptyText, .emptyList, .unset].map fun value =>
    ⟨value.documentName, .none value⟩)

private def blankField : Field := ⟨"", .primitive .text, ⟨false, true, true, .deep⟩, "", none, none⟩

def Field.reader : Reader Field := Json.record "ResolvedField" blankField [
  needed "name" Json.text fun field value => { field with name := value },
  needed "kind" FieldKind.reader fun field value => { field with kind := value },
  needed "policy" Policy.reader fun field value => { field with policy := value },
  needed "declared_in" Json.text fun field value => { field with declaredIn := value },
  spare "default" (Json.optional Default.reader) fun field value => { field with default := value },
  spare "doc" (Json.optional Json.text) fun field value => { field with doc := value }]

def Param.reader : Reader Param := Json.record "ConstructorParam" { field := "" } [
  needed "field" Json.text fun param value => { param with field := value },
  spare "optional" Json.flag fun param value => { param with optional := value }]

def Slot.reader : Reader Slot := Json.record "TraversalSlot" { field := "" } [
  needed "field" Json.text fun slot value => { slot with field := value },
  spare "list" Json.flag fun slot value => { slot with list := value }]

/-- The steps by position; the type of the last one is still to be filled in. -/
def CloneStep.known : List CloneStep :=
  [.copyValue, .cloneChild, .cloneList, .shareReference, .reset, .externalCopy ""]

/-- A step is given by its name or by its position. -/
def CloneStep.ofTag : Json → Except Json.Mismatch CloneStep
  | .string name =>
    match known.find? (·.documentName == name) with
    | some step => .ok step
    | none => .error (.variant name (known.map (·.documentName)))
  | .number (.integer value) =>
    if value < 0 then .error (.type (.integer value) "variant identifier")
    else match known[value.toNat]? with
      | some step => .ok step
      | none => .error (.value (.integer value) "variant index 0 <= i < 6")
  | other => .error (.type other.found "variant identifier")

/-- The tag among the members of a rule, which must be there once. -/
private def findTag (tag : Option CloneStep) :
    List (String × Json) → Except Json.Mismatch CloneStep
  | [] => match tag with
    | some step => .ok step
    | none => .error (.missing "step")
  | (name, value) :: rest =>
    if name == "step" then
      match tag with
      | some _ => .error (.duplicate "step")
      | none => do findTag (some (← CloneStep.ofTag value)) rest
    else findTag tag rest

/-- The type of an external copy, which must be there once. -/
private def findType (type : Option String) : List (String × Json) → Except Json.Mismatch String
  | [] => match type with
    | some type => .ok type
    | none => .error (.missing "type_name")
  | (name, value) :: rest =>
    if name == "type_name" then
      match type, value with
      | some _, _ => .error (.duplicate "type_name")
      | none, .string type => findType (some type) rest
      | none, other => .error (.type other.found "a string")
    else findType type rest

def CloneStep.ofMembers (members : List (String × Json)) : Except Json.Mismatch CloneStep := do
  match ← findTag none members with
  | .externalCopy _ => return .externalCopy (← findType none members)
  | step => return step

/-- A rule stands five levels deep in a document that may nest 128 levels. -/
def CloneRule.room : Nat := 123

/-- Everything but the field is kept until the whole rule has been read. -/
def ruleMembers : Nat → Bool → Option String → List (String × Json) → List Char →
    Except Json.Fault ((Option String × List (String × Json)) × List Char)
  | 0, _, _, _, _ => .error .malformed
  | fuel + 1, first, field, kept, cs => do
    let (more, rest) ← Json.nextKey first cs
    if more then
      let (name, rest) ← Json.readString rest
      if name == "field" then
        if field.isSome then .error (.shape (.duplicate name))
        else
          let (value, rest) ← Json.text (← Json.afterColon rest)
          ruleMembers fuel false (some value) kept rest
      else
        let (value, rest) ← Json.any CloneRule.room (← Json.afterColon rest)
        ruleMembers fuel false field (kept ++ [(name, value)]) rest
    else .ok ((field, kept), rest)

def CloneRule.reader : Reader CloneRule := fun cs =>
  match Json.skipSpace cs with
  | '\x7b' :: rest => do
    let ((field, kept), rest) ← ruleMembers (rest.length + 1) true none [] rest
    match field with
    | none => .error (.shape (.missing "field"))
    | some field =>
      match CloneStep.ofMembers kept with
      | .error mismatch => .error (.shape mismatch)
      | .ok step => .ok (⟨field, step⟩, rest)
  | cs => .error (Json.mismatch "struct CloneRule" cs)

def Mangle.reader : Reader Mangle :=
  Json.record "MangleBinding" { nameField := "", flagField := "" } [
    needed "name_field" Json.text fun mangle value => { mangle with nameField := value },
    needed "flag_field" Json.text fun mangle value => { mangle with flagField := value },
    spare "name_optional" Json.flag fun mangle value => { mangle with nameOptional := value },
    spare "flag_optional" Json.flag fun mangle value => { mangle with flagOptional := value }]

def Indicators.reader : Reader Indicators := Json.record "ResolvedIndicators" {} [
  spare "generic" Json.flag fun indicators value => { indicators with generic := value },
  spare "unique" Json.flag fun indicators value => { indicators with unique := value },
  spare "mangle" (Json.optional Mangle.reader) fun indicators value =>
    { indicators with mangle := value }]

private def blankClass : Class :=
  { name := "", chain := [], fields := [], params := [], traversal := [], cloneRules := [] }

def Class.reader : Reader Class := Json.record "ResolvedClass" blankClass [
  needed "name" Json.text fun cls value => { cls with name := value },
  spare "superclass" (Json.optional Json.text) fun cls value => { cls with superclass := value },
  needed "chain" (Json.list Json.text) fun cls value => { cls with chain := value },
  spare "subclasses" (Json.list Json.text) fun cls value => { cls with subclasses := value },
  needed "fields" (Json.list Field.reader) fun cls value => { cls with fields := value },
  needed "constructor" (Json.list Param.reader) fun cls value => { cls with params := value },
  needed "traversal" (Json.list Slot.reader) fun cls value => { cls with traversal := value },
  needed "clone" (Json.list CloneRule.reader) fun cls value => { cls with cloneRules := value },
  spare "indicators" Indicators.reader fun cls value => { cls with indicators := value },
  spare "doc" (Json.optional Json.text) fun cls value => { cls with doc := value }]

end Model

def Model.reader : Json.Reader Model := Json.record "ResolvedModel" { classes := [] } [
  Json.spare "root" (Json.optional Json.text) fun model value => { model with root := value },
  Json.spare "externals" (Json.list Json.text) fun model value => { model with externals := value },
  Json.needed "classes" (Json.list Model.Class.reader) fun model value => { model with classes := value }]

/-- The model of a document, which is neither resolved nor checked. -/
def Model.ofDocument (source : String) : Except Json.Fault Model := Json.document Model.reader source

/-- The document of a model, laid out in lines. -/
def Model.document (model : Model) : String := model.toJson.prettyText ++ "\n"

end NodeModel
