import NodeModel.Toml.Scalar

/-! TOML documents. A document is read line by line; any mistake refuses it as a whole. -/
namespace NodeModel.Toml

/-- Items up to the closing bracket, on any number of lines; a comma may stand before it. -/
def arrayItems (read : Reader Value) : Nat → List Char → Option (List Value × List Char)
  | 0, _ => none
  | fuel + 1, cs => do
    match ← skipLines false cs with
    | ']' :: rest => return ([], rest)
    | rest =>
      let (item, rest) ← read rest
      match ← skipLines false rest with
      | ']' :: rest => return ([item], rest)
      | ',' :: rest =>
        let (items, rest) ← arrayItems read fuel rest
        return (item :: items, rest)
      | _ => none

/-- Entries up to the closing brace, all on one line. -/
def tableEntries (read : Reader Value) : Nat → Entries → List Char → Option (Entries × List Char)
  | 0, _, _ => none
  | fuel + 1, entries, cs => do
    let (path, rest) ← key cs
    match rest with
    | '=' :: rest =>
      let (item, rest) ← read (skipBlanks rest)
      let entries ← Entries.add item path entries
      match skipBlanks rest with
      | '\x7d' :: rest => return (entries, rest)
      | ',' :: rest => tableEntries read fuel entries rest
      | _ => none
    | _ => none

/-- A value that holds no other value. -/
def atom : Reader Value := fun cs =>
  match cs with
  | '"' :: _ | '\x27' :: _ => do
    let (text, rest) ← text cs
    return (.text text, rest)
  | _ => scalar cs

/-- A value in which arrays and inline tables stand at most `levels` deep. -/
def value : (levels : Nat) → Reader Value
  | 0, cs => atom cs
  | levels + 1, cs =>
    match cs with
    | '[' :: rest => do
      let (items, rest) ← arrayItems (value levels) (rest.length + 1) rest
      return (.array items, rest)
    | '\x7b' :: rest =>
      match skipBlanks rest with
      | '\x7d' :: rest => some (.table .inline [], rest)
      | rest => do
        let (entries, rest) ← tableEntries (value levels) (rest.length + 1) [] rest
        return (.table .inline entries, rest)
    | _ => atom cs

/-- The entries so far, and the path of the header that later keys belong to. -/
structure State where
  entries : Entries := []
  path : List String := []

/-- The names of a header up to its closing brackets. -/
private def header (close : List Char) (cs : List Char) : Option (List String × List Char) := do
  let (path, rest) ← key cs
  match close, rest with
  | [']'], ']' :: rest => return (path, rest)
  | [']', ']'], ']' :: ']' :: rest => return (path, rest)
  | _, _ => none

/-- One line, or several if a value needs them. -/
def line (state : State) (cs : List Char) : Option (State × List Char) := do
  match skipBlanks cs with
  | '[' :: '[' :: rest =>
    let (path, rest) ← header [']', ']'] rest
    let entries ← state.entries.openElement path
    return (⟨entries, path⟩, ← endOfLine rest)
  | '[' :: rest =>
    let (path, rest) ← header [']'] rest
    let entries ← state.entries.openTable path
    return (⟨entries, path⟩, ← endOfLine rest)
  | cs =>
    match endOfLine cs with
    | some rest => return (state, rest)
    | none =>
      let (path, rest) ← key cs
      match rest with
      | '=' :: rest =>
        let (item, rest) ← value (nesting - 1) (skipBlanks rest)
        let entries ← state.entries.within (Entries.add item path) state.path
        return ({ state with entries }, ← endOfLine rest)
      | _ => none

def lines : Nat → State → List Char → Option Entries
  | _, state, [] => some state.entries
  | 0, _, _ => none
  | fuel + 1, state, cs => do
    let (state, rest) ← line state cs
    lines fuel state rest

/-- A byte order mark may stand in front. -/
def document (source : String) : Option Entries :=
  let cs := match source.toList with
    | '\ufeff' :: rest => rest
    | cs => cs
  lines (cs.length + 1) {} cs

end NodeModel.Toml
