import NodeModel.Text.LetterCase

/-! Identifiers of the emitted Rust source. -/
namespace NodeModel.Source

open Text

/-- Whether a word starts at an uppercase letter, given its neighbours. A run of uppercase letters
is one word, except that its last letter opens the next one before a lowercase letter. -/
def startsWord (before after : Option Char) : Bool :=
  match before with
  | none => false
  | some c => isLower c || c.isDigit || (isUpper c && after.any isLower)

/-- The rest of a name in lowercase words, behind the character `before`. -/
def snakeFrom (before : Option Char) : List Char → List Char
  | [] => []
  | c :: cs =>
    if isUpper c then
      (if startsWord before cs.head? then ['_'] else []) ++ toLower c ++ snakeFrom (some c) cs
    else c :: snakeFrom (some c) cs

/-- Lowercase words joined by underscores. -/
def snakeCase (name : String) : String := String.ofList (snakeFrom none name.toList)

/-- Words of the language that may be used as raw identifiers. -/
def keywords : List String :=
  ["abstract", "as", "async", "await", "become", "box", "break", "const", "continue", "do",
    "dyn", "else", "enum", "extern", "false", "final", "fn", "for", "gen", "if", "impl", "in",
    "let", "loop", "macro", "match", "mod", "move", "mut", "override", "priv", "pub", "ref",
    "return", "static", "struct", "trait", "true", "try", "type", "typeof", "unsafe", "unsized",
    "use", "virtual", "where", "while", "yield"]

/-- Words that cannot be identifiers in any form. -/
def reserved : List String := ["self", "Self", "super", "crate"]

/-- The identifier of a field. -/
def fieldIdent (name : String) : String :=
  let snake := snakeCase name
  if reserved.contains snake then snake ++ "_"
  else if keywords.contains snake then "r#" ++ snake
  else snake

/-- An identifier without its raw mark, from which other names are made. -/
def bare (ident : String) : String :=
  match ident.toList with
  | 'r' :: '#' :: rest => String.ofList rest
  | _ => ident

end NodeModel.Source
