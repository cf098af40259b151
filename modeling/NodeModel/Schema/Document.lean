import NodeModel.Json.Shape
import NodeModel.Schema.Basic

/-! Schemas as JSON documents. Members with their usual value are left out, except the policy of
a field. -/
namespace NodeModel

open Json (Reader)

/-- A member that is written only if `shown`. -/
def Json.shownIf (shown : Bool) (name : String) (value : Json) : List (String × Json) :=
  if shown then [(name, value)] else []

def Json.shownSome (name : String) (write : α → Json) : Option α → List (String × Json)
  | none => []
  | some value => [(name, write value)]

def Json.texts (values : List String) : Json := .array (values.map .string)

def Primitive.toJson : Primitive → Json
  | .text => .string "string"
  | .flag => .string "bool"
  | .integer => .string "integer"
  | .external name => .object [("external", .string name)]

def FieldKind.toJson : FieldKind → Json
  | .single target => .object [("scalar_ref", .string target)]
  | .list target => .object [("list_ref", .string target)]
  | .primitive value => .object [("primitive", value.toJson)]

def CopyMode.documentName : CopyMode → String
  | .deep => "deep_copy"
  | .share => "share_reference"
  | .reset => "reset_on_copy"
  | .external => "external_deep_copy"

def CopyMode.toJson (mode : CopyMode) : Json := .string mode.documentName

def FieldPolicy.toJson (policy : FieldPolicy) : Json := .object <|
  Json.shownIf policy.optional "optional" (.boolean true) ++
  Json.shownIf (!policy.bound) "constructor_bound" (.boolean false) ++
  Json.shownIf (!policy.visitable) "visitable" (.boolean false) ++
  Json.shownSome "copy_mode" CopyMode.toJson policy.copyMode

def FieldDecl.toJson (field : FieldDecl) : Json := .object <|
  [("name", .string field.name), ("kind", field.kind.toJson), ("policy", field.policy.toJson)] ++
  Json.shownSome "doc" .string field.doc

def ManglePair.toJson (pair : ManglePair) : Json :=
  .object [("name_field", .string pair.nameField), ("flag_field", .string pair.flagField)]

def Indicators.toJson (indicators : Indicators) : Json := .object <|
  Json.shownIf indicators.generic "generic" (.boolean true) ++
  Json.shownIf indicators.unique "unique" (.boolean true) ++
  Json.shownSome "mangle" ManglePair.toJson indicators.mangle

def NodeDecl.toJson (node : NodeDecl) : Json := .object <|
  [("name", .string node.name)] ++
  Json.shownSome "superclass" .string node.superclass ++
  Json.shownIf (!node.fields.isEmpty) "fields" (.array (node.fields.map (·.toJson))) ++
  Json.shownIf (!node.indicators.isEmpty) "indicators" node.indicators.toJson ++
  Json.shownSome "doc" .string node.doc

def Schema.toJson (schema : Schema) : Json := .object <|
  Json.shownSome "root" .string schema.root ++
  Json.shownIf (!schema.externals.isEmpty) "externals" (Json.texts schema.externals) ++
  [("nodes", .array (schema.nodes.map (·.toJson)))]

def Primitive.reader : Reader Primitive := Json.choice [
  ⟨"string", .none .text⟩,
  ⟨"bool", .none .flag⟩,
  ⟨"integer", .none .integer⟩,
  ⟨"external", .one fun cs => do
    let (name, rest) ← Json.text cs
    .ok (.external name, rest)⟩]

def FieldKind.reader : Reader FieldKind := Json.choice [
  ⟨"scalar_ref", .one fun cs => do
    let (target, rest) ← Json.text cs
    .ok (.single target, rest)⟩,
  ⟨"list_ref", .one fun cs => do
    let (target, rest) ← Json.text cs
    .ok (.list target, rest)⟩,
  ⟨"primitive", .one fun cs => do
    let (value, rest) ← Primitive.reader cs
    .ok (.primitive value, rest)⟩]

def CopyMode.reader : Reader CopyMode :=
  Json.choice ([CopyMode.deep, .share, .reset, .external].map fun mode =>
    ⟨mode.documentName, .none mode⟩)

def FieldPolicy.reader : Reader FieldPolicy := Json.record "FieldPolicy" {} [
  Json.spare "optional" Json.flag fun policy value => { policy with optional := value },
  Json.spare "constructor_bound" Json.flag fun policy value => { policy with bound := value },
  Json.spare "visitable" Json.flag fun policy value => { policy with visitable := value },
  Json.spare "copy_mode" (Json.optional CopyMode.reader) fun policy value =>
    { policy with copyMode := value }]

def FieldDecl.reader : Reader FieldDecl :=
  Json.record "FieldDescriptor" { name := "", kind := .primitive .text } [
    Json.needed "name" Json.text fun field value => { field with name := value },
    Json.needed "kind" FieldKind.reader fun field value => { field with kind := value },
    Json.spare "policy" FieldPolicy.reader fun field value => { field with policy := value },
    Json.spare "doc" (Json.optional Json.text) fun field value => { field with doc := value }]

def ManglePair.reader : Reader ManglePair := Json.record "MangleIndicator" ⟨"", ""⟩ [
  Json.needed "name_field" Json.text fun pair value => { pair with nameField := value },
  Json.needed "flag_field" Json.text fun pair value => { pair with flagField := value }]

def Indicators.reader : Reader Indicators := Json.record "Indicators" {} [
  Json.spare "generic" Json.flag fun indicators value => { indicators with generic := value },
  Json.spare "unique" Json.flag fun indicators value => { indicators with unique := value },
  Json.spare "mangle" (Json.optional ManglePair.reader) fun indicators value =>
    { indicators with mangle := value }]

def NodeDecl.reader : Reader NodeDecl := Json.record "NodeDescriptor" { name := "" } [
  Json.needed "name" Json.text fun node value => { node with name := value },
  Json.spare "superclass" (Json.optional Json.text) fun node value =>
    { node with superclass := value },
  Json.spare "fields" (Json.list FieldDecl.reader) fun node value => { node with fields := value },
  Json.spare "indicators" Indicators.reader fun node value => { node with indicators := value },
  Json.spare "doc" (Json.optional Json.text) fun node value => { node with doc := value }]

def Schema.reader : Reader Schema := Json.record "Schema" {} [
  Json.spare "root" (Json.optional Json.text) fun schema value => { schema with root := value },
  Json.spare "externals" (Json.list Json.text) fun schema value => { schema with externals := value },
  Json.needed "nodes" (Json.list NodeDecl.reader) fun schema value => { schema with nodes := value }]

/-- The schema of a document. References are taken as they are written: none becomes external. -/
def Schema.ofDocument (source : String) : Except Json.Fault Schema :=
  Json.document Schema.reader source

/-- The document of a schema, without blanks. -/
def Schema.document (schema : Schema) : String := schema.toJson.compactText

end NodeModel
