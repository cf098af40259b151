import NodeModel.Schema.External
import NodeModel.Toml.Reader

/-! Project configuration. It adds to what a schema declares, and flags of a command override it. -/
namespace NodeModel

structure Config where
  /-- Used when the schema declares no root. -/
  root : Option String := none
  externals : List String := []
  outputFolder : Option String := none
  targets : List String := []
deriving DecidableEq, Repr

namespace Config

open Toml (Value Entries)

private def asText : Value → Option String
  | .text value => some value
  | _ => none

private def asTexts : Value → Option (List String)
  | .array items => items.mapM asText
  | _ => none

/-- An entry that may be missing but must not have another type. -/
private def entry (entries : Entries) (key : String) (read : Value → Option α) (usual : α) :
    Option α :=
  match entries.value? key with
  | none => some usual
  | some value => read value

/-- The folder and targets of the output section, by name or by position. A date counts as a section
that gives neither. -/
private def asOutput : Value → Option (Option String × List String)
  | .table _ entries => do
    let folder ← entry entries "dir" (fun value => (asText value).map some) none
    return (folder, ← entry entries "targets" asTexts [])
  | .date => some (none, [])
  | .array [] => some (none, [])
  | .array [folder] => do return (some (← asText folder), [])
  | .array (folder :: targets :: _) => do return (some (← asText folder), ← asTexts targets)
  | _ => none

/-- Unknown entries are passed over. -/
def ofEntries (entries : Entries) : Option Config := do
  let root ← entry entries "root" (fun value => (asText value).map some) none
  let externals ← entry entries "externals" asTexts []
  let (outputFolder, targets) ← entry entries "output" asOutput (none, [])
  return { root, externals, outputFolder, targets }

def ofText? (source : String) : Option Config := (Toml.document source).bind ofEntries

/-- A schema as the configuration completes it. -/
def complete (config : Config) (schema : Schema) : Schema :=
  Schema.tagged
    { schema with
      root := schema.root.or config.root
      externals := mergeNames schema.externals config.externals }

end Config

end NodeModel
