import NodeModel.Command.Run
import NodeModel.Proofs.Declaration.Composition

/-! What a configuration adds to a schema could have been declared at the end of its text. -/
namespace NodeModel

open Declaration Text

namespace Config

/-- The lines that declare what a configuration adds to a schema. -/
def texts (config : Config) (schema : Schema) : List (List Char) :=
  Schema.rootTexts (if schema.root.isNone then config.root else none) ++
    Schema.externalTexts config.externals

def declarations (config : Config) (schema : Schema) : String :=
  String.ofList ((config.texts schema).flatMap (· ++ ['\n']))

variable {config : Config}

/-- A root is declared only where there is none. -/
theorem reads_root {state : State} (ok : ∀ name, config.root = some name → IsName name)
    (outside : state.opened = none) :
    ∃ doc, Reads (Schema.rootTexts (if state.schema.root.isNone then config.root else none)) state
      { schema := { state.schema with root := state.schema.root.or config.root }, doc } := by
  obtain ⟨⟨root,externals,nodes⟩,doc,opened⟩ := state
  obtain rfl : opened = none := outside
  cases root with
  | some root => exact ⟨doc,.nil _⟩
  | none =>
    cases given : config.root with
    | none => exact ⟨doc,.nil _⟩
    | some name => exact ⟨[],reads_rootLine (ok name given) rfl rfl⟩

theorem reads_externals {state : State} (ok : ∀ name ∈ config.externals, IsName name)
    (outside : state.opened = none) :
    ∃ doc, Reads (Schema.externalTexts config.externals) state
      { schema := { state.schema with
          externals := mergeNames state.schema.externals config.externals }, doc } := by
  obtain ⟨schema,doc,opened⟩ := state
  obtain rfl : opened = none := outside
  by_cases some : config.externals = []
  · rw [some]
    exact ⟨doc,.nil _⟩
  · exact ⟨[],reads_externalsLine some ok rfl⟩

theorem reads_texts {state : State} (root : ∀ name, config.root = some name → IsName name)
    (externals : ∀ name ∈ config.externals, IsName name) (outside : state.opened = none) :
    ∃ doc, Reads (config.texts state.schema) state
      { schema := { state.schema with
          root := state.schema.root.or config.root
          externals := mergeNames state.schema.externals config.externals }, doc } := by
  obtain ⟨doc,rooted⟩ := reads_root root outside
  let middle : State :=
    { schema := { state.schema with root := state.schema.root.or config.root }, doc }
  have closed : middle.opened = none := rfl
  obtain ⟨doc',listed⟩ := reads_externals externals closed
  exact ⟨doc',rooted.append listed⟩

/-- Behind a text, the declarations complete its schema, whatever documentation still waits. -/
theorem ofText_declarations {source : String} {schema : Schema} (ended : Ended source.toList)
    (read : Schema.ofText source = .ok schema)
    (root : ∀ name, config.root = some name → IsName name)
    (externals : ∀ name ∈ config.externals, IsName name) :
    Schema.ofText (source ++ config.declarations schema) = .ok (config.complete schema) := by
  obtain ⟨state,run,outside,rfl⟩ := readLines_eq_ok read
  obtain ⟨doc,reads⟩ := reads_texts root externals outside
  have later : ((significantLines (config.declarations state.schema.tagged).toList).map
      (·.shifted (lines source.toList).length)).map Line.text =
      (config.texts state.schema).map trim := by
    rw [declarations,String.toList_ofList,List.map_map]
    exact significantLines_ended reads.lineTexts
  have more := reads.run _ later
  have wider := subset_mergeNames_left state.schema.externals config.externals
  rw [Schema.ofText,readLines,String.toList_append,significantLines_append ended,
    List.foldlM_append,run]
  simp only [bind,Except.bind,more,State.finish]
  simp only [complete,Schema.tagged,map_tagged_tagged wider]

end Config

/-- A schema that its text completes by itself is not changed by an empty configuration. -/
theorem Config.complete_empty {source : String} {schema : Schema}
    (read : Schema.ofText source = .ok schema) : ({} : Config).complete schema = schema := by
  obtain ⟨state,_,_,rfl⟩ := readLines_eq_ok read
  have plain : ({} : Config).complete state.schema.tagged = state.schema.tagged.tagged := by
    simp [complete,mergeNames]
  rw [plain,Schema.tagged_tagged]

namespace Command

variable {m : Type → Type} [Monad m] [LawfulMonad m]

/-- Loading two declaration texts comes to the same where they come to the same schema. -/
theorem loadModel_congr {files files' : Files.Access m} {config config' : Config}
    {path source source' : String} {schema schema' : Schema} (plain : isDocumentPath path = false)
    (text : files.readText path = pure (.ok source))
    (text' : files'.readText path = pure (.ok source'))
    (read : Schema.ofText source = .ok schema) (read' : Schema.ofText source' = .ok schema')
    (same : config.complete schema = config'.complete schema') :
    loadModel files config path = loadModel files' config' path := by
  simp [loadModel,text,text',Schema.ofFile,plain,read,read',same,Except.mapError]

end Command

/-- A configuration says the same as declarations: the schema that it completes is what the text
reads as with a root line and a line of externals behind it, so that loading the text under the
configuration and loading the longer text under none come to the same model or the same defects. -/
theorem Config.complete_declared (config : Config) {source : String} {schema : Schema}
    (ended : Ended source.toList) (read : Schema.ofText source = .ok schema)
    (root : ∀ name, config.root = some name → IsName name)
    (externals : ∀ name ∈ config.externals, IsName name) :
    Schema.ofText (source ++ config.declarations schema) = .ok (config.complete schema) ∧
    ∀ {m : Type → Type} [Monad m] [LawfulMonad m] (files declared : Files.Access m) (path : String),
      isDocumentPath path = false → files.readText path = pure (.ok source) →
      declared.readText path = pure (.ok (source ++ config.declarations schema)) →
      Command.loadModel files config path = Command.loadModel declared {} path := by
  have longer := ofText_declarations ended read root externals
  refine ⟨longer,?_⟩
  intro m _ _ files declared path plain text text'
  exact Command.loadModel_congr plain text text' read longer (complete_empty longer).symm

def heldText (source : String) : Files.Access Id where
  isPresent _ := true
  readText _ := .ok source
  makeFolders _ := .ok ()
  writeText _ _ := .ok ()

def rootedConfig : Config where
  root := some "R"
  externals := ["U","T","U"]

theorem Config.complete_declared_rooted :
    Schema.ofText leadingText = .ok leadingSchema ∧
    rootedConfig.declarations leadingSchema = "root R\nextern U, T, U\n" ∧
    Schema.ofText (leadingText ++ rootedConfig.declarations leadingSchema) =
      .ok (rootedConfig.complete leadingSchema) ∧
    Command.loadModel (heldText leadingText) rootedConfig "a.nodes" =
      Command.loadModel (heldText (leadingText ++ rootedConfig.declarations leadingSchema)) {}
        "a.nodes" := by
  have ended : Ended leadingText.toList := .inr (by decide +kernel)
  have read : Schema.ofText leadingText = .ok leadingSchema := by decide +kernel
  have root : ∀ name, rootedConfig.root = some name → IsName name := by
    rintro _ ⟨⟩
    exact show Text.isIdentifier "R".toList = true by decide
  have externals : ∀ name ∈ rootedConfig.externals, IsName name := by
    unfold IsName
    decide
  obtain ⟨declared,loaded⟩ := rootedConfig.complete_declared ended read root externals
  exact ⟨read,by decide +kernel,declared,loaded (heldText leadingText)
    (heldText (leadingText ++ rootedConfig.declarations leadingSchema)) "a.nodes"
    (by decide +kernel) rfl rfl⟩

end NodeModel
