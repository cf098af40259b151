/-! What the lines of a TOML document are made of: blanks, comments, texts and keys. -/
namespace NodeModel.Toml

/-- Reads from the front of a text and gives what follows. -/
abbrev Reader (α : Type) := List Char → Option (α × List Char)

def skipBlanks (cs : List Char) : List Char := cs.dropWhile fun c => c == ' ' || c == '\t'

/-- Control characters other than the tab may not stand in texts and comments. -/
def isPlain (c : Char) : Bool := c == '\t' || (0x20 ≤ c.toNat && c.toNat != 0x7F)

/-- The rest of a line that holds nothing more than a comment. -/
def endOfLine (cs : List Char) : Option (List Char) :=
  let cs := match skipBlanks cs with
    | '#' :: rest => rest.dropWhile isPlain
    | rest => rest
  match cs with
  | [] => some []
  | '\n' :: rest => some rest
  | '\r' :: '\n' :: rest => some rest
  | _ => none

/-- Skips blanks, comments and line ends; `inComment` says whether a comment has begun. -/
def skipLines (inComment : Bool) : List Char → Option (List Char)
  | [] => some []
  | '\n' :: rest => skipLines false rest
  | '\r' :: '\n' :: rest => skipLines false rest
  | c :: rest =>
    if inComment then (if isPlain c then skipLines true rest else none)
    else if c == '#' then skipLines true rest
    else if c == ' ' || c == '\t' then skipLines false rest
    else some (c :: rest)

def hexValue? (c : Char) : Option Nat :=
  if '0' ≤ c && c ≤ '9' then some (c.toNat - '0'.toNat)
  else if 'a' ≤ c && c ≤ 'f' then some (c.toNat - 'a'.toNat + 10)
  else if 'A' ≤ c && c ≤ 'F' then some (c.toNat - 'A'.toNat + 10)
  else none

/-- A character given by `count` hexadecimal digits. -/
private def codePoint (count : Nat) (cs : List Char) : Option (Char × List Char) := do
  let digits ← (cs.take count).mapM hexValue?
  if digits.length < count then none
  else
    let code := digits.foldl (fun n d => n * 16 + d) 0
    if code.isValidChar then some (Char.ofNat code, cs.drop count) else none

/-- An escape whose backslash has been read. -/
private def escape : List Char → Option (Char × List Char)
  | 'b' :: rest => some (Char.ofNat 8, rest)
  | 't' :: rest => some ('\t', rest)
  | 'n' :: rest => some ('\n', rest)
  | 'f' :: rest => some (Char.ofNat 12, rest)
  | 'r' :: rest => some ('\r', rest)
  | '"' :: rest => some ('"', rest)
  | '\\' :: rest => some ('\\', rest)
  | 'u' :: rest => codePoint 4 rest
  | 'U' :: rest => codePoint 8 rest
  | _ => none

/-- A text in double quotes, the first of which has been read. -/
def basicText : Nat → List Char → Option (List Char × List Char)
  | 0, _ => none
  | _ + 1, [] => none
  | fuel + 1, c :: cs =>
    if c = '"' then some ([], cs)
    else if c = '\\' then do
      let (c, rest) ← escape cs
      let (text, rest) ← basicText fuel rest
      return (c :: text, rest)
    else if isPlain c then do
      let (text, rest) ← basicText fuel cs
      return (c :: text, rest)
    else none

/-- A text in single quotes, the first of which has been read. -/
def literalText : List Char → Option (List Char × List Char)
  | [] => none
  | c :: cs =>
    if c = '\x27' then some ([], cs)
    else if isPlain c then do
      let (text, rest) ← literalText cs
      return (c :: text, rest)
    else none

/-- Quotes at the end of a text of several lines: three close it, and up to two more before them
belong to it. -/
private def closing (quote : Char) (cs : List Char) : Option (List Char × List Char) :=
  let count := ((cs.take 5).takeWhile (· == quote)).length
  if 3 ≤ count then some (List.replicate (count - 3) quote, cs.drop count) else none

/-- Skips blanks and line ends. -/
private def skipGap : List Char → List Char
  | [] => []
  | '\r' :: '\n' :: rest => skipGap rest
  | c :: rest => if c == ' ' || c == '\t' || c == '\n' then skipGap rest else c :: rest

/-- A backslash at the end of a line, together with all blanks and line ends after it. -/
private def continued (cs : List Char) : Option (List Char) :=
  match skipBlanks cs with
  | '\n' :: rest => some (skipGap rest)
  | '\r' :: '\n' :: rest => some (skipGap rest)
  | _ => none

/-- A text of several lines in `quote`s, three of which have been read. Only double quotes allow
escapes. -/
def longText (quote : Char) : Nat → List Char → Option (List Char × List Char)
  | 0, _ => none
  | _ + 1, [] => none
  | fuel + 1, c :: cs =>
    match closing quote (c :: cs) with
    | some closed => some closed
    | none =>
      let keep (c : Char) (rest : List Char) : Option (List Char × List Char) := do
        let (text, rest) ← longText quote fuel rest
        return (c :: text, rest)
      if c = '\\' && quote = '"' then
        match continued cs with
        | some rest => longText quote fuel rest
        | none => do
          let (c, rest) ← escape cs
          keep c rest
      else if c = '\r' then
        match cs with
        | '\n' :: rest => keep '\n' rest
        | _ => none
      else if c = '\n' || isPlain c then keep c cs
      else none

private def dropLineEnd : List Char → List Char
  | '\n' :: rest => rest
  | '\r' :: '\n' :: rest => rest
  | cs => cs

/-- A text of one line, as it may also stand for a key. -/
def shortText : Reader String
  | '"' :: rest => do
    let (text, rest) ← basicText (rest.length + 1) rest
    return (String.ofList text, rest)
  | '\x27' :: rest => do
    let (text, rest) ← literalText rest
    return (String.ofList text, rest)
  | _ => none

def text : Reader String
  | '"' :: '"' :: '"' :: rest => do
    let (text, rest) ← longText '"' (rest.length + 1) (dropLineEnd rest)
    return (String.ofList text, rest)
  | '\x27' :: '\x27' :: '\x27' :: rest => do
    let (text, rest) ← longText '\x27' (rest.length + 1) (dropLineEnd rest)
    return (String.ofList text, rest)
  | cs => shortText cs

def isKeyChar (c : Char) : Bool := c.isAlphanum || c == '_' || c == '-'

def simpleKey (cs : List Char) : Option (String × List Char) :=
  match cs.takeWhile isKeyChar with
  | [] => shortText cs
  | name => some (String.ofList name, cs.dropWhile isKeyChar)

/-- Keys have fewer parts than this, and values fewer levels of arrays and inline tables. -/
def nesting : Nat := 80

/-- Names joined by dots, with blanks around each. -/
def keyParts : Nat → List Char → Option (List String × List Char)
  | 0, _ => none
  | fuel + 1, cs => do
    let (name, rest) ← simpleKey (skipBlanks cs)
    match skipBlanks rest with
    | '.' :: rest =>
      let (names, rest) ← keyParts fuel rest
      return (name :: names, rest)
    | rest => return ([name], rest)

def key : Reader (List String) := fun cs =>
  (keyParts (cs.length + 1) cs).filter (·.1.length < nesting)

end NodeModel.Toml
