import NodeModel.Schema.Basic

/-! What can be wrong with a line of a declaration text. -/
namespace NodeModel.Declaration

inductive Problem where
  | invalidRoot (text : String)
  | repeatedRoot (earlier : String)
  | emptyExternals
  | invalidExternal (text : String)
  | strayBrace
  | unknownKeyword (word : String)
  | missingBrace
  | fieldsOnHeaderLine
  | invalidNodeName (text : String)
  | invalidSuperclass (text : String)
  | strayHeaderText (text : String)
  | malformedMangle
  | mangleFieldCount
  | unknownIndicator (word : String)
  | unclosedNode (name : String)
  | missingColon
  | invalidFieldName (text : String)
  | missingType (field : String)
  | invalidType (text : String)
  | notAttribute (text : String)
  | repeatedAttribute (word : String)
  | unknownAttribute (word : String)
  | conflictingCopies (earlier later : CopyMode)
deriving DecidableEq, Repr

def Problem.message : Problem → String
  | .invalidRoot text => s!"invalid root type `{text}`"
  | .repeatedRoot earlier => s!"root already declared as `{earlier}`"
  | .emptyExternals => "`extern` needs at least one type name"
  | .invalidExternal text => s!"invalid external type `{text}`"
  | .strayBrace => "`\x7d` without an open node"
  | .unknownKeyword word => s!"expected `node`, `root` or `extern`, found `{word}`"
  | .missingBrace => "expected `\x7b` after node header"
  | .fieldsOnHeaderLine => "fields must start on their own line"
  | .invalidNodeName text => s!"invalid node name `{text}`"
  | .invalidSuperclass text => s!"invalid superclass `{text}`"
  | .strayHeaderText text => s!"unexpected `{text}` in node header"
  | .malformedMangle => "expected `#mangle(nameField, flagField)`"
  | .mangleFieldCount => "`#mangle` takes exactly two field names"
  | .unknownIndicator word => s!"unknown indicator `#{word}`"
  | .unclosedNode name => s!"node `{name}` is missing its closing `\x7d`"
  | .missingColon => "expected `name: type`"
  | .invalidFieldName text => s!"invalid field name `{text}`"
  | .missingType field => s!"field `{field}` has no type"
  | .invalidType text => s!"invalid type `{text}`"
  | .notAttribute text => s!"expected `@attribute`, found `{text}`"
  | .repeatedAttribute word => s!"attribute `@{word}` repeated"
  | .unknownAttribute word => s!"unknown attribute `@{word}`"
  | .conflictingCopies earlier later =>
    s!"conflicting copy attributes `@{earlier.label}` and `@{later.label}`"

/-- A problem and the number of its line, counted from one. -/
structure LineProblem where
  line : Nat
  problem : Problem
deriving DecidableEq, Repr

def LineProblem.message (p : LineProblem) : String := s!"line {p.line}: {p.problem.message}"

end NodeModel.Declaration
