/-! Access to files, whatever holds them. -/
namespace NodeModel.Files

/-- Why a file or folder cannot be used. -/
inductive Refusal where
  | notFound
  | alreadyExists
  | notFolder
  | isFolder
  | nameTooLong
  /-- A path cannot hold the character zero. -/
  | zeroInName
  | notText
  | other (reason : String)
deriving DecidableEq, Repr

def Refusal.message : Refusal → String
  | .notFound => "No such file or directory (os error 2)"
  | .alreadyExists => "File exists (os error 17)"
  | .notFolder => "Not a directory (os error 20)"
  | .isFolder => "Is a directory (os error 21)"
  | .nameTooLong => "File name too long (os error 36)"
  | .zeroInName => "file name contained an unexpected NUL byte"
  | .notText => "stream did not contain valid UTF-8"
  | .other reason => reason

/-- What a command does with files. -/
structure Access (m : Type → Type) where
  isPresent : String → m Bool
  readText : String → m (Except Refusal String)
  /-- Makes a folder and those above it, unless they are there. -/
  makeFolders : String → m (Except Refusal Unit)
  writeText : String → String → m (Except Refusal Unit)

end NodeModel.Files
