import NodeModel.Files.Access
import NodeModel.Files.Path

/-! A directory tree as a value. Paths are relative to its top, unless they begin with a slash. -/
namespace NodeModel.Files

inductive Entry where
  | file (content : ByteArray)
  | folder

/-- Every entry by its parts, from the top. Entries elsewhere begin with `..` or the root `/`. -/
structure Directory where
  entries : List (List String × Entry) := []

namespace Directory

/-- Whether a location is the top or a folder above it. -/
def isAbove (location : List String) : Bool := location.all (· == "..")

def isRoot (location : List String) : Bool := location == ["/"]

/-- What stands at a location. The root and all that is above the top are folders. -/
def entry? (directory : Directory) (location : List String) : Option Entry :=
  if isAbove location || isRoot location then some .folder
  else (directory.entries.find? (·.1 == location)).map (·.2)

/-- Puts an entry in place of the one at its location, or after all others. -/
def put (directory : Directory) (location : List String) (entry : Entry) : Directory :=
  if directory.entries.any (·.1 == location) then
    ⟨directory.entries.map fun old => if old.1 == location then (location, entry) else old⟩
  else ⟨directory.entries ++ [(location, entry)]⟩

/-- One level up. The root is its own folder. -/
def folderOf (location : List String) : List String :=
  if isAbove location then location ++ [".."]
  else if isRoot location then location
  else location.dropLast

/-- The longest name of an entry and the longest path, in bytes. -/
def longestName : Nat := 255
def longestPath : Nat := 4095

/-- Follows the parts of a path. All entries on the way have to be folders; what the path leads to
may be missing. -/
def follow (directory : Directory) (location : List String) :
    List String → Except Refusal (List String × Option Entry)
  | [] => .ok (location, directory.entry? location)
  | part :: rest =>
    match directory.entry? location with
    | none => .error .notFound
    | some (.file _) => .error .notFolder
    | some .folder =>
      if part = "." then directory.follow location rest
      else if part = ".." then directory.follow (folderOf location) rest
      else if longestName < part.utf8ByteSize then .error .nameTooLong
      else directory.follow (location ++ [part]) rest

/-- Where a path starts. -/
def startOf (path : String) : List String :=
  if path.toList.head? == some '/' then ["/"] else []

/-- Refuses a path that no directory can take. -/
def checkPath (path : String) : Except Refusal Unit :=
  if path.toList.any (·.toNat == 0) then .error .zeroInName
  else if longestPath < path.utf8ByteSize then .error .nameTooLong
  else .ok ()

def find (directory : Directory) (path : String) : Except Refusal (List String × Option Entry) := do
  checkPath path
  if path.isEmpty then throw .notFound
  directory.follow (startOf path) (pathParts path)

def isPresent (directory : Directory) (path : String) : Bool :=
  match directory.find path with
  | .ok (_, some _) => true
  | _ => false

def readText (directory : Directory) (path : String) : Except Refusal String := do
  match ← directory.find path with
  | (_, none) => throw .notFound
  | (_, some .folder) => throw .isFolder
  | (_, some (.file content)) =>
    match String.fromUTF8? content with
    | some text => return text
    | none => throw .notText

/-- Makes the folder at the end of the parts; the folders above it have to be there. -/
def makeFolder (directory : Directory) (start parts : List String) :
    Except Refusal Directory := do
  match ← directory.follow start parts with
  | (location, none) => return directory.put location .folder
  | (_, some .folder) => return directory
  | (_, some (.file _)) => throw .alreadyExists

/-- Makes a folder, given by its parts backwards, after those above it if they are missing. -/
def makeAlong (directory : Directory) (start : List String) :
    List String → Except Refusal Directory
  | [] => .ok directory
  | part :: above =>
    let parts := (part :: above).reverse
    match directory.makeFolder start parts with
    | .error .notFound => do (← directory.makeAlong start above).makeFolder start parts
    | result => result

def makeFolders (directory : Directory) (path : String) : Except Refusal Directory :=
  if path.isEmpty then .ok directory
  else do
    checkPath path
    directory.makeAlong (startOf path) (pathParts path).reverse

def writeText (directory : Directory) (path text : String) : Except Refusal Directory := do
  match ← directory.find path with
  | (_, some .folder) => throw .isFolder
  | (location, _) => return directory.put location (.file text.toUTF8)

/-- A directory with the given files and the folders they need. -/
def ofFiles (files : List (String × ByteArray)) : Directory :=
  files.foldl (fun directory (path, content) =>
    let location := (pathParts path).filter (· != ".")
    let folders := (List.range (location.length - 1)).map fun count => location.take (count + 1)
    (folders.foldl (fun directory folder => directory.put folder .folder) directory).put location
      (.file content)) {}

/-- The files of `after` below the top that are not the same in `before`. -/
def changes (before after : Directory) : List (String × ByteArray) :=
  let isInside (location : List String) : Bool :=
    location.head? != some ".." && location.head? != some "/"
  (after.entries.filter (isInside ·.1)).filterMap fun (location, entry) =>
    match entry with
    | .folder => none
    | .file content =>
      match before.entry? location with
      | some (.file old) =>
        if old == content then none else some ("/".intercalate location, content)
      | _ => some ("/".intercalate location, content)

/-- Commands that run on a directory value. -/
def access : Access (StateM Directory) where
  isPresent path := return (← get).isPresent path
  readText path := return (← get).readText path
  makeFolders path := do
    match (← get).makeFolders path with
    | .error refusal => return .error refusal
    | .ok directory => set directory; return .ok ()
  writeText path text := do
    match (← get).writeText path text with
    | .error refusal => return .error refusal
    | .ok directory => set directory; return .ok ()

end Directory

end NodeModel.Files
