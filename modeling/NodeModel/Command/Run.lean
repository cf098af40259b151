import NodeModel.Command.Arguments
import NodeModel.Command.Config
import NodeModel.Command.Describe
import NodeModel.Command.Load
import NodeModel.Resolution.Basic
import NodeModel.Target

/-! Commands: their configuration is read first, then the schema; files are written target by
target, and what was written before a failure stays. -/
namespace NodeModel

inductive Failure where
  | unreadableConfig (path : String) (refusal : Files.Refusal)
  | invalidConfig (path : String)
  | load (problem : LoadProblem)
  | unresolved (path : String) (defects : List Defect)
  | unknownClass (name path : String)
  | unsupportedTarget (name : String)
  | folderNotMade (folder : String) (refusal : Files.Refusal)
  | fileNotWritten (path : String) (refusal : Files.Refusal)
deriving DecidableEq, Repr

namespace Failure

def message : Failure → String
  | .unreadableConfig path _ => s!"cannot read config {path}"
  | .invalidConfig path => s!"invalid config {path}"
  | .load problem => problem.message
  | .unresolved path _ => s!"cannot resolve {path}"
  | .unknownClass name path => s!"no class named '{name}' in {path}"
  | .unsupportedTarget name =>
    s!"unsupported target: {name} (available: " ++ ", ".intercalate Target.available ++ ")"
  | .folderNotMade folder _ => s!"failed to create {folder}"
  | .fileNotWritten path _ => s!"failed to write {path}"

def cause? : Failure → Option String
  | .unreadableConfig _ refusal => some refusal.message
  | .invalidConfig _ => some "not a configuration"
  | .load problem => some problem.cause
  | .unresolved _ defects => some (Defect.report defects)
  | .unknownClass _ _ | .unsupportedTarget _ => none
  | .folderNotMade _ refusal | .fileNotWritten _ refusal => some refusal.message

/-- Indents every line by four blanks. -/
private def indented (text : String) : String :=
  String.ofList ("    ".toList ++ text.toList.flatMap fun c =>
    if c = '\n' then "\n    ".toList else [c])

def report (failure : Failure) : String :=
  s!"Error: {failure.message}\n" ++
    match failure.cause? with
    | none => ""
    | some cause => s!"\nCaused by:\n{indented cause}\n"

end Failure

structure Outcome where
  exit : Nat
  stdout : String
  stderr : String
deriving DecidableEq, Repr

namespace Command

def defaultConfig : String := "nodegen.toml"

def defaultFolder : String := "generated"

variable {m : Type → Type} [Monad m]

/-- A command prints lines as it goes along; a failure keeps those printed before it. -/
abbrev Running (m : Type → Type) := ExceptT Failure (StateT (List String) m)

def print (line : String) : Running m Unit := modify (· ++ [line])

/-- Only a configuration that was asked for has to be there. -/
def loadConfig (files : Files.Access m) (asked : Option String) : Running m Config := do
  let path := asked.getD defaultConfig
  if asked.isNone && !(← files.isPresent path) then return {}
  match ← files.readText path with
  | .error refusal => throw (.unreadableConfig path refusal)
  | .ok source =>
    match Config.ofText? source with
    | none => throw (.invalidConfig path)
    | some config => return config

def loadModel (files : Files.Access m) (config : Config) (path : String) : Running m Model := do
  match Schema.ofFile path (← files.readText path) with
  | .error problem => throw (.load problem)
  | .ok schema =>
    match (config.complete schema).resolve with
    | .error defects => throw (.unresolved path defects)
    | .ok model => return model

def summary (path : String) (model : Model) : String :=
  s!"{path}: {model.classes.length} classes ({model.leaves.length} leaves, " ++
    s!"{model.categories.length} categories), {model.externals.length} external types"

/-- Writes one generated file below a folder. -/
def writeFile (files : Files.Access m) (folder : String) (file : GeneratedFile) :
    Running m Unit := do
  let path := Files.joinPath folder file.name
  let parent := Files.shownFolder folder
  match ← files.makeFolders parent with
  | .error refusal => throw (.folderNotMade parent refusal)
  | .ok () =>
    match ← files.writeText path file.content with
    | .error refusal => throw (.fileNotWritten path refusal)
    | .ok () => print s!"wrote {path}"

/-- Each target is looked up only when its turn comes. -/
def writeTarget (files : Files.Access m) (model : Model) (folder name : String) :
    Running m Unit := do
  match Target.ofName? name with
  | none => throw (.unsupportedTarget name)
  | some target => (target.files model).forM (writeFile files folder)

/-- Flags come before the configuration, and that before what is usual. -/
def chosenTargets (config : Config) (flags : List String) : List String :=
  if !flags.isEmpty then flags
  else if !config.targets.isEmpty then config.targets
  else Target.available

def run (files : Files.Access m) (config : Config) : Command → Running m Unit
  | .check input => do
    print (summary input (← loadModel files config input))
  | .inspect input none => do
    (← loadModel files config input).classes.forM fun cls => cls.describe.forM print
  | .inspect input (some name) => do
    match (← loadModel files config input).class? name with
    | none => throw (.unknownClass name input)
    | some cls => cls.describe.forM print
  | .generate input output targets => do
    let model ← loadModel files config input
    let folder := (output.or config.outputFolder).getD defaultFolder
    (chosenTargets config targets).forM (writeTarget files model folder)

/-- Runs the command that the arguments ask for. -/
def runArguments (files : Files.Access m) (arguments : List String) : m Outcome := do
  match Invocation.read arguments with
  | .error .usage => return ⟨2, "", "usage"⟩
  | .error .help => return ⟨0, "usage: nodegen [--config FILE] check|inspect|generate -i FILE\n", ""⟩
  | .ok invocation =>
    let program : Running m Unit := do
      run files (← loadConfig files invocation.config) invocation.command
    let (result, lines) ← program.run.run []
    let stdout := String.join (lines.map (· ++ "\n"))
    match result with
    | .ok () => return ⟨0, stdout, ""⟩
    | .error failure => return ⟨1, stdout, failure.report⟩

end Command

end NodeModel
