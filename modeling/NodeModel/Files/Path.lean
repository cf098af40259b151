import NodeModel.Text.Pieces

/-! Paths as text. -/
namespace NodeModel.Files

/-- The parts between slashes. An empty part stands for the folder before it. -/
def pathParts (path : String) : List String :=
  (Text.pieces (· == '/') path.toList).map fun part =>
    if part.isEmpty then "." else String.ofList part

/-- A file below a folder. -/
def joinPath (folder file : String) : String :=
  if folder.isEmpty || folder.toList.getLast? == some '/' then folder ++ file
  else folder ++ "/" ++ file

/-- Drops slashes and dots at the end of a folder's path, read backwards, but neither a path that
is one dot nor the root. -/
private def dropIdle : List Char → List Char
  | '/' :: [] => ['/']
  | '/' :: rest => dropIdle rest
  | '.' :: '/' :: [] => ['/']
  | '.' :: '/' :: rest => dropIdle rest
  | path => path

/-- The path of a folder, as it is shown. -/
def shownFolder (folder : String) : String :=
  String.ofList (dropIdle folder.toList.reverse).reverse

/-- The last part of a path that is a name. -/
def fileName? (path : String) : Option String :=
  match ((pathParts path).filter (· != ".")).getLast? with
  | some ".." => none
  | name => name

/-- What follows the last dot of the file name, unless the dot leads it. -/
def extension? (path : String) : Option String := do
  let name ← fileName? path
  let backwards := name.toList.reverse
  let after := backwards.takeWhile (· != '.')
  match backwards.dropWhile (· != '.') with
  | _ :: _ :: _ => return String.ofList after.reverse
  | _ => none

end NodeModel.Files
