import NodeModel.Declaration.Field
import NodeModel.Declaration.Header
import NodeModel.Schema.External
import NodeModel.Text.Pieces

/-! Declaration texts. The lines that matter are read one after another; the state between them is
the schema so far, the documentation waiting for the next declaration, and the open node. -/
namespace NodeModel.Declaration

open Text

/-- A trimmed line and its number, counted from one. -/
structure Line where
  number : Nat
  text : List Char
deriving DecidableEq, Repr

/-- The lines that are neither blank nor comments. -/
def significantLines (cs : List Char) : List Line :=
  ((lines cs).zipIdx 1).filterMap fun (line, number) =>
    let text := trim line
    if text.isEmpty || isComment text then none else some ⟨number, text⟩

/-- A node whose closing brace has not been read yet, with the number of its header line. -/
structure OpenNode where
  line : Nat
  node : NodeDecl
deriving DecidableEq, Repr

structure State where
  schema : Schema := {}
  /-- Documentation lines that wait for a declaration. -/
  doc : List String := []
  opened : Option OpenNode := none
deriving DecidableEq, Repr

namespace State

def pendingDoc (state : State) : Option String :=
  if state.doc.isEmpty then none else some ("\n".intercalate state.doc)

def addDoc (state : State) (text : List Char) : State :=
  { state with doc := state.doc ++ [String.ofList (trim text)] }

def addNode (state : State) (node : NodeDecl) : State :=
  { state with
    schema := { state.schema with nodes := state.schema.nodes ++ [node] }
    doc := []
    opened := none }

/-- Inside a node every line is its closing brace, documentation or a field. -/
def readInside (state : State) (opened : OpenNode) (text : List Char) : Except Problem State :=
  if text = ['\x7d'] then .ok (state.addNode opened.node)
  else match stripStart "///".toList text with
    | some doc => .ok (state.addDoc doc)
    | none => do
      let field ← readField text state.pendingDoc
      let node := { opened.node with fields := opened.node.fields ++ [field] }
      .ok { state with doc := [], opened := some { opened with node } }

def readRoot (state : State) (rest : List Char) : Except Problem State :=
  if !isIdentifier rest then .error (.invalidRoot (String.ofList rest))
  else match state.schema.root with
    | some earlier => .error (.repeatedRoot earlier)
    | none =>
      .ok { state with schema := { state.schema with root := some (String.ofList rest) }, doc := [] }

def readExternals (state : State) (rest : List Char) : Except Problem State :=
  match commaList rest with
  | [] => .error .emptyExternals
  | names =>
    match names.find? (!isIdentifier ·) with
    | some name => .error (.invalidExternal (String.ofList name))
    | none =>
      let externals := mergeNames state.schema.externals (names.map String.ofList)
      .ok { state with schema := { state.schema with externals }, doc := [] }

def readNode (state : State) (number : Nat) (rest : List Char) : Except Problem State := do
  let header ← readHeader rest state.pendingDoc
  if header.closed then .ok (state.addNode header.node)
  else .ok { state with doc := [], opened := some ⟨number, header.node⟩ }

/-- Outside a node a line is documentation or starts with a keyword. -/
def readOutside (state : State) (number : Nat) (text : List Char) : Except Problem State :=
  match stripStart "///".toList text with
  | some doc => .ok (state.addDoc doc)
  | none =>
    let (keyword, rest) := splitKeyword text
    match String.ofList keyword with
    | "root" => state.readRoot rest
    | "extern" => state.readExternals rest
    | "node" => state.readNode number rest
    | "\x7d" => .error .strayBrace
    | word => .error (.unknownKeyword word)

def step (state : State) (line : Line) : Except LineProblem State :=
  let result := match state.opened with
    | some opened => state.readInside opened line.text
    | none => state.readOutside line.number line.text
  result.mapError fun problem => ⟨line.number, problem⟩

/-- A node must not be left open. Externals are told apart once all of them are known. -/
def finish (state : State) : Except LineProblem Schema :=
  match state.opened with
  | some opened => .error ⟨opened.line, .unclosedNode opened.node.name⟩
  | none => .ok state.schema.tagged

end State

def readLines (cs : List Char) : Except LineProblem Schema := do
  ((← (significantLines cs).foldlM State.step {}).finish)

end NodeModel.Declaration

/-- The schema of a declaration text. -/
def NodeModel.Schema.ofText (source : String) :
    Except NodeModel.Declaration.LineProblem NodeModel.Schema :=
  NodeModel.Declaration.readLines source.toList
