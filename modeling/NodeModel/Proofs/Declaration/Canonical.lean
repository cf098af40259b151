import NodeModel.Declaration.Text

/-! The canonical text of a schema, and the schemas that a declaration text can express. -/
namespace NodeModel

open Text

namespace Declaration

def Attribute.word : Attribute → String
  | .deferred => "deferred"
  | .hidden => "hidden"
  | .copying mode => mode.label

def Attribute.text (mark : Attribute) : List Char := '@' :: mark.word.toList

inductive Indicator where
  | generic
  | unique
  | mangle (pair : ManglePair)

def Indicator.word : Indicator → String
  | .generic => "generic"
  | .unique => "unique"
  | .mangle _ => "mangle"

def nameList (names : List String) : List Char :=
  ", ".toList.intercalate (names.map String.toList)

def Indicator.operands : Indicator → List Char
  | .mangle pair => '(' :: nameList [pair.nameField, pair.flagField] ++ [')']
  | _ => []

def Indicator.text (item : Indicator) : List Char := '#' :: item.word.toList ++ item.operands

def itemsText (items : List Indicator) : List Char := items.flatMap (' ' :: ·.text)

def Indicator.apply (indicators : Indicators) : Indicator → Indicators
  | .generic => { indicators with generic := true }
  | .unique => { indicators with unique := true }
  | .mangle pair => { indicators with mangle := some pair }

def docText (line : List Char) : List Char :=
  if line.isEmpty then "///".toList else "/// ".toList ++ line

def docLines : Option String → List (List Char)
  | none => []
  | some doc => pieces (· == '\n') doc.toList

def docTexts (doc : Option String) : List (List Char) := (docLines doc).map docText

def keywordText (word : String) (rest : List Char) : List Char := word.toList ++ ' ' :: rest

def indent : List Char := "    ".toList

end Declaration

open Declaration

def FieldKind.written : FieldKind → List Char
  | .single target => target.toList
  | .list target => '[' :: target.toList ++ [']']
  | .primitive .text => "string".toList
  | .primitive .flag => "bool".toList
  | .primitive .integer => "int".toList
  | .primitive (.external name) => name.toList

def FieldPolicy.attributes (policy : FieldPolicy) : List Attribute :=
  (if policy.bound then [] else [.deferred]) ++ (if policy.visitable then [] else [.hidden]) ++
    policy.copyMode.toList.map .copying

def FieldDecl.typeText (field : FieldDecl) : List Char :=
  field.kind.written ++ if field.policy.optional then ['?'] else []

def FieldDecl.text (field : FieldDecl) : List Char :=
  field.name.toList ++ ": ".toList ++ field.typeText ++
    field.policy.attributes.flatMap fun mark => ' ' :: mark.text

def Indicators.items (indicators : Indicators) : List Indicator :=
  (if indicators.generic then [.generic] else []) ++
    (if indicators.unique then [.unique] else []) ++ indicators.mangle.toList.map .mangle

def NodeDecl.namesText (node : NodeDecl) : List Char :=
  node.name.toList ++ match node.superclass with
    | none => []
    | some superclass => " : ".toList ++ superclass.toList

def NodeDecl.headText (node : NodeDecl) : List Char :=
  node.namesText ++ itemsText node.indicators.items

def NodeDecl.fieldTexts (field : FieldDecl) : List (List Char) :=
  (docTexts field.doc ++ [field.text]).map (indent ++ ·)

def NodeDecl.texts (node : NodeDecl) : List (List Char) :=
  docTexts node.doc ++ [keywordText "node" (node.headText ++ [' ','\x7b'])] ++
    node.fields.flatMap NodeDecl.fieldTexts ++ [['\x7d']]

namespace Schema

def rootTexts : Option String → List (List Char)
  | none => []
  | some root => [keywordText "root" root.toList]

def externalTexts : List String → List (List Char)
  | [] => []
  | names => [keywordText "extern" (nameList names)]

/-- The lines of the canonical text: the root, the externals, and each class with its fields. -/
def texts (schema : Schema) : List (List Char) :=
  rootTexts schema.root ++ externalTexts schema.externals ++ schema.nodes.flatMap NodeDecl.texts

def toText (schema : Schema) : String :=
  String.ofList (schema.texts.flatMap (· ++ ['\n']))

end Schema

def IsName (name : String) : Prop := isIdentifier name.toList = true

instance decidableIsName (name : String) : Decidable (IsName name) :=
  inferInstanceAs (Decidable (_ = true))

def typeWords : List String := ["string", "bool", "int"]

/-- Documentation comes in lines without blanks at their ends. -/
def Documented (doc : Option String) : Prop :=
  ∀ text, doc = some text → ∃ lines : List String, text = "\n".intercalate lines ∧
    ∀ line ∈ lines, trim line.toList = line.toList ∧ '\n' ∉ line.toList

/-- A reference to one node is to a class that is not listed as external, an external value of a
type that is. -/
def FieldKind.Expressible (externals : List String) : FieldKind → Prop
  | .single target => IsName target ∧ target ∉ externals ∧ target ∉ typeWords
  | .list target => IsName target
  | .primitive (.external name) => IsName name ∧ name ∈ externals ∧ name ∉ typeWords
  | .primitive _ => True

structure FieldDecl.Expressible (externals : List String) (field : FieldDecl) : Prop where
  name : IsName field.name
  kind : field.kind.Expressible externals
  doc : Documented field.doc

structure NodeDecl.Expressible (externals : List String) (node : NodeDecl) : Prop where
  name : IsName node.name
  superclass : ∀ superclass, node.superclass = some superclass → IsName superclass
  mangle : ∀ pair, node.indicators.mangle = some pair →
    IsName pair.nameField ∧ IsName pair.flagField
  doc : Documented node.doc
  fields : ∀ field ∈ node.fields, field.Expressible externals

structure Schema.Expressible (schema : Schema) : Prop where
  root : ∀ root, schema.root = some root → IsName root
  externals : ∀ name ∈ schema.externals, IsName name
  distinct : schema.externals.Nodup
  nodes : ∀ node ∈ schema.nodes, node.Expressible schema.externals

/-- An external value as it is read, before its type is known to be external. -/
def FieldKind.untagged : FieldKind → FieldKind
  | .primitive (.external name) => .single name
  | kind => kind

def FieldDecl.untagged (field : FieldDecl) : FieldDecl := { field with kind := field.kind.untagged }

def NodeDecl.untagged (node : NodeDecl) : NodeDecl :=
  { node with fields := node.fields.map FieldDecl.untagged }

variable {externals : List String}

@[simp] theorem FieldKind.untagged_written (kind : FieldKind) :
    kind.untagged.written = kind.written := by
  cases kind with
  | primitive value => cases value <;> rfl
  | _ => rfl

theorem FieldKind.Expressible.untagged {kind : FieldKind} (ok : kind.Expressible externals) :
    kind.untagged.Expressible [] ∧ kind.untagged.tagged externals = kind := by
  cases kind with
  | single target =>
    obtain ⟨name,apart,word⟩ := ok
    exact ⟨⟨name,by simp,word⟩,by simp [FieldKind.untagged,FieldKind.tagged,apart]⟩
  | list target => exact ⟨ok,rfl⟩
  | primitive value =>
    cases value with
    | external name =>
      obtain ⟨name,listed,word⟩ := ok
      exact ⟨⟨name,by simp,word⟩,by simp [FieldKind.untagged,FieldKind.tagged,listed]⟩
    | _ => exact ⟨trivial,rfl⟩

theorem FieldKind.Expressible.tagged {kind : FieldKind} (ok : kind.Expressible []) :
    (kind.tagged externals).Expressible externals := by
  cases kind with
  | single target =>
    obtain ⟨name,_,word⟩ := ok
    by_cases listed : target ∈ externals
    · simpa [FieldKind.tagged,listed] using ⟨name,listed,word⟩
    · simpa [FieldKind.tagged,listed] using ⟨name,listed,word⟩
  | list target => exact ok
  | primitive value =>
    cases value with
    | external name => exact absurd ok.2.1 List.not_mem_nil
    | _ => trivial

theorem FieldDecl.Expressible.untagged {field : FieldDecl} (ok : field.Expressible externals) :
    field.untagged.Expressible [] ∧ field.untagged.tagged externals = field := by
  obtain ⟨kind,same⟩ := ok.kind.untagged
  exact ⟨⟨ok.name,kind,ok.doc⟩,by simp [FieldDecl.tagged,FieldDecl.untagged,same]⟩

theorem NodeDecl.Expressible.untagged {node : NodeDecl} (ok : node.Expressible externals) :
    node.untagged.Expressible [] ∧ node.untagged.tagged externals = node := by
  refine ⟨⟨ok.name,ok.superclass,ok.mangle,ok.doc,?_⟩,?_⟩
  · intro field member
    obtain ⟨field,inside,rfl⟩ := List.mem_map.mp member
    exact (ok.fields field inside).untagged.1
  · have fields : node.fields.map (FieldDecl.tagged externals ∘ FieldDecl.untagged) = node.fields :=
      (List.map_congr_left fun field member => (ok.fields field member).untagged.2).trans
        (List.map_id _)
    simp [NodeDecl.tagged,NodeDecl.untagged,fields]

theorem NodeDecl.Expressible.tagged {node : NodeDecl} (ok : node.Expressible []) :
    (node.tagged externals).Expressible externals := by
  refine ⟨ok.name,ok.superclass,ok.mangle,ok.doc,fun field member => ?_⟩
  obtain ⟨field,inside,rfl⟩ := List.mem_map.mp member
  have declared := ok.fields field inside
  exact ⟨declared.name,declared.kind.tagged,declared.doc⟩

end NodeModel
