import NodeModel.Command.Run

/-! The command line. -/
namespace NodeModel.Files

private def refusal : IO.Error → Refusal
  | .noFileOrDirectory .. => .notFound
  | .alreadyExists .. => .alreadyExists
  | .inappropriateType .. => .isFolder
  | error => .other (toString error)

private def attempt (action : IO α) : IO (Except Refusal α) := do
  match ← action.toBaseIO with
  | .ok value => return .ok value
  | .error error => return .error (refusal error)

/-- The files of the system the program runs on. -/
def system : Access IO where
  isPresent path := do
    match ← attempt (IO.FS.readBinFile path) with
    | .error .notFound => return false
    | _ => return true
  readText path := do
    match ← attempt (IO.FS.readBinFile path) with
    | .error refusal => return .error refusal
    | .ok content =>
      match String.fromUTF8? content with
      | some text => return .ok text
      | none => return .error .notText
  makeFolders path := if path.isEmpty then return .ok () else attempt (IO.FS.createDirAll path)
  writeText path text := attempt (IO.FS.writeFile path text)

end NodeModel.Files

def main (arguments : List String) : IO UInt32 := do
  let outcome ← NodeModel.Command.runArguments NodeModel.Files.system arguments
  IO.print outcome.stdout
  IO.eprint outcome.stderr
  return outcome.exit.toUInt32
