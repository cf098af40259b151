import NodeModel.Declaration.Text
import NodeModel.Files.Access
import NodeModel.Files.Path
import NodeModel.Schema.Document

/-! Schemas from files. A file is a JSON document if its extension says so, and a declaration text
otherwise. -/
namespace NodeModel

inductive LoadProblem where
  | unreadable (path : String) (refusal : Files.Refusal)
  | declaration (path : String) (problem : Declaration.LineProblem)
  | document (path : String) (fault : Json.Fault)
deriving DecidableEq, Repr

namespace LoadProblem

def message : LoadProblem → String
  | .unreadable path refusal => s!"cannot read {path}: {refusal.message}"
  | .declaration path problem => s!"{path}:{problem.message}"
  | .document path fault => s!"{path}: invalid JSON schema: {fault.message}"

/-- What lies behind the problem. -/
def cause : LoadProblem → String
  | .unreadable _ refusal => refusal.message
  | .declaration _ problem => problem.message
  | .document _ fault => fault.message

end LoadProblem

def isDocumentPath (path : String) : Bool :=
  (Files.extension? path).any fun found => found.toLower == "json"

/-- The schema of a file, given what reading the file has led to. -/
def Schema.ofFile (path : String) : Except Files.Refusal String → Except LoadProblem Schema
  | .error refusal => .error (.unreadable path refusal)
  | .ok source =>
    if isDocumentPath path then (Schema.ofDocument source).mapError (.document path)
    else (Schema.ofText source).mapError (.declaration path)

end NodeModel
