import NodeModel.Model.Document
import NodeModel.Source.Text

/-! Targets: what a model can be turned into. -/
namespace NodeModel

/-- A file to be written below the output directory. -/
structure GeneratedFile where
  name : String
  content : String
deriving DecidableEq, Repr

inductive Target where
  | document
  | source
deriving DecidableEq, Repr

namespace Target

def name : Target → String
  | .document => "json"
  | .source => "rust"

def all : List Target := [.document, .source]

def ofName? (name : String) : Option Target := all.find? (·.name == name)

def available : List String := all.map Target.name

def files (model : Model) : Target → List GeneratedFile
  | .document => [⟨"model.json", model.document⟩]
  | .source => [⟨"nodes.rs", (Source.SourceFile.of model).text⟩]

end Target

end NodeModel
