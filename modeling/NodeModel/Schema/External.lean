import NodeModel.Schema.Basic

/-! External type names. A single reference to a name listed as external is an external value,
not a node; lists stay lists of nodes. -/
namespace NodeModel

def FieldKind.tagged (externals : List String) : FieldKind → FieldKind
  | .single target => if externals.contains target then .primitive (.external target) else .single target
  | kind => kind

def FieldDecl.tagged (externals : List String) (field : FieldDecl) : FieldDecl :=
  { field with kind := field.kind.tagged externals }

def NodeDecl.tagged (externals : List String) (node : NodeDecl) : NodeDecl :=
  { node with fields := node.fields.map (·.tagged externals) }

def Schema.tagged (schema : Schema) : Schema :=
  { schema with nodes := schema.nodes.map (·.tagged schema.externals) }

/-- The names of `more` that are not there yet, in order and once each, after those that are. -/
def mergeNames (names more : List String) : List String :=
  more.foldl (fun names name => if names.contains name then names else names ++ [name]) names

/-- Names in order of their characters, each once. -/
structure NameSet where
  names : List String := []
deriving DecidableEq, Repr

namespace NameSet

def place (name : String) : List String → List String
  | [] => [name]
  | other :: rest =>
    if name < other then name :: other :: rest
    else if name = other then other :: rest
    else other :: place name rest

def insert (set : NameSet) (name : String) : NameSet := ⟨place name set.names⟩

def contains (set : NameSet) (name : String) : Bool := set.names.contains name

def insertMany (set : NameSet) (names : List String) : NameSet := names.foldl insert set

def ofList (names : List String) : NameSet := insertMany {} names

end NameSet

end NodeModel
