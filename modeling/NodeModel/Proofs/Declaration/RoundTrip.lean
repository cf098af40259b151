import NodeModel.Proofs.Declaration.Reading

/-! Declaration texts and schemas: the schemas that are read from texts are those that have a
canonical text, and that text is read back as the schema. -/
namespace NodeModel

open Text Declaration

namespace Declaration

structure State.Sound (state : State) : Prop where
  root : ∀ name, state.schema.root = some name → IsName name
  externals : ∀ name ∈ state.schema.externals, IsName name
  distinct : state.schema.externals.Nodup
  nodes : ∀ node ∈ state.schema.nodes, node.Expressible []
  doc : ∀ line ∈ state.doc, trim line.toList = line.toList ∧ '\n' ∉ line.toList
  opened : ∀ opened, state.opened = some opened → opened.node.Expressible []

variable {state next : State}

theorem State.Sound.documented (sound : state.Sound) : Documented state.pendingDoc := by
  intro text pending
  unfold State.pendingDoc at pending
  split at pending
  next => cases pending
  next =>
    cases pending
    exact ⟨state.doc,rfl,sound.doc⟩

theorem State.Sound.addDoc (sound : state.Sound) {text : List Char} (feed : '\n' ∉ text) :
    (state.addDoc text).Sound := by
  refine { sound with doc := fun line member => ?_ }
  rcases List.mem_append.mp member with earlier | last
  · exact sound.doc line earlier
  · obtain rfl := List.mem_singleton.mp last
    rw [String.toList_ofList]
    exact ⟨(tight_trim text).trim_eq,fun inside => feed (trim_subset text inside)⟩

theorem State.Sound.addNode (sound : state.Sound) {node : NodeDecl} (ok : node.Expressible []) :
    (state.addNode node).Sound where
  root := sound.root
  externals := sound.externals
  distinct := sound.distinct
  nodes := List.forall_mem_append.mpr ⟨sound.nodes,List.forall_mem_singleton.mpr ok⟩
  doc := by simp [State.addNode]
  opened := by simp [State.addNode]

theorem stripStart_subset {start cs rest : List Char} (found : stripStart start cs = some rest) :
    rest ⊆ cs := by
  induction start generalizing cs with
  | nil => cases found; exact List.Subset.refl _
  | cons s start ih =>
    cases cs with
    | nil => cases found
    | cons c cs =>
      rw [stripStart] at found
      split at found
      next => exact List.subset_cons_of_subset c (ih found)
      next => cases found

theorem readInside_sound (sound : state.Sound) {opened : OpenNode}
    (ok : opened.node.Expressible []) {text : List Char} (feed : '\n' ∉ text)
    (read : state.readInside opened text = .ok next) : next.Sound := by
  unfold State.readInside at read
  split at read
  next => cases read; exact sound.addNode ok
  next =>
    split at read
    next doc found =>
      cases read
      exact sound.addDoc fun inside => feed (stripStart_subset found inside)
    next =>
      obtain ⟨field,fieldRead,read⟩ := bind_eq_ok_iff.mp read
      cases read
      have declared := readField_expressible sound.documented fieldRead
      refine { sound with doc := by simp, opened := ?_ }
      rintro _ ⟨⟩
      exact { ok with fields :=
        List.forall_mem_append.mpr ⟨ok.fields,List.forall_mem_singleton.mpr declared⟩ }

theorem readRoot_sound (sound : state.Sound) {rest : List Char}
    (read : state.readRoot rest = .ok next) : next.Sound := by
  unfold State.readRoot at read
  split at read
  next => cases read
  next named =>
    split at read
    next => cases read
    next =>
      cases read
      refine { sound with root := ?_, doc := by simp }
      rintro _ ⟨⟩
      simpa [IsName] using named

theorem mergeNames_sound (P : String → Prop) {names : List String} (more : List String)
    (distinct : names.Nodup) (each : ∀ name ∈ names, P name) (each' : ∀ name ∈ more, P name) :
    (mergeNames names more).Nodup ∧ ∀ name ∈ mergeNames names more, P name := by
  induction more generalizing names with
  | nil => exact ⟨distinct,each⟩
  | cons name more ih =>
    have later := fun other member => each' other (List.mem_cons_of_mem _ member)
    rw [mergeNames,List.foldl_cons]
    split
    next => exact ih distinct each later
    next fresh =>
      refine ih ?_ ?_ later
      · simpa [List.nodup_append,distinct] using fun other member same =>
          fresh (by simpa using same ▸ member)
      · exact List.forall_mem_append.mpr ⟨each,by simpa using each' name List.mem_cons_self⟩

theorem readExternals_sound (sound : state.Sound) {rest : List Char}
    (read : state.readExternals rest = .ok next) : next.Sound := by
  unfold State.readExternals at read
  split at read
  next => cases read
  next =>
    split at read
    next => cases read
    next valid =>
      cases read
      have named : ∀ name ∈ (commaList rest).map String.ofList, IsName name := by
        intro name member
        obtain ⟨text,inside,rfl⟩ := List.mem_map.mp member
        simpa [IsName] using List.find?_eq_none.mp valid text inside
      obtain ⟨distinct,each⟩ := mergeNames_sound IsName _ sound.distinct sound.externals named
      exact { sound with externals := each, distinct := distinct, doc := by simp }

theorem readNode_sound (sound : state.Sound) {number : Nat} {rest : List Char}
    (read : state.readNode number rest = .ok next) : next.Sound := by
  obtain ⟨header,headerRead,read⟩ := bind_eq_ok_iff.mp read
  have ok := readHeader_expressible sound.documented headerRead
  split at read
  next => cases read; exact sound.addNode ok
  next =>
    cases read
    refine { sound with doc := by simp, opened := ?_ }
    rintro _ ⟨⟩
    exact ok

theorem readOutside_sound (sound : state.Sound) {number : Nat} {text : List Char}
    (feed : '\n' ∉ text) (read : state.readOutside number text = .ok next) : next.Sound := by
  unfold State.readOutside at read
  split at read
  next doc found =>
    cases read
    exact sound.addDoc fun inside => feed (stripStart_subset found inside)
  next =>
    simp only at read
    split at read
    next => exact readRoot_sound sound read
    next => exact readExternals_sound sound read
    next => exact readNode_sound sound read
    next => cases read
    next => cases read

theorem step_sound (sound : state.Sound) {line : Line} (feed : '\n' ∉ line.text)
    (step : state.step line = .ok next) : next.Sound := by
  unfold State.step at step
  have read := mapError_eq_ok_iff.mp step
  split at read
  next opened found => exact readInside_sound sound (sound.opened opened found) feed read
  next => exact readOutside_sound sound feed read

theorem run_sound {lines : List Line} (feeds : ∀ line ∈ lines, '\n' ∉ line.text)
    (sound : state.Sound) (run : lines.foldlM State.step state = .ok next) : next.Sound := by
  induction lines generalizing state with
  | nil => cases run; exact sound
  | cons line lines ih =>
    obtain ⟨middle,first,rest⟩ := bind_eq_ok_iff.mp run
    exact ih (fun other member => feeds other (List.mem_cons_of_mem _ member))
      (step_sound sound (feeds line List.mem_cons_self) first) rest

theorem significantLines_feed (cs : List Char) :
    ∀ line ∈ significantLines cs, '\n' ∉ line.text := by
  intro line member
  have listed : line.text ∈ (significantLines cs).map Line.text := List.mem_map_of_mem member
  rw [significantLines_texts] at listed
  obtain ⟨text,inside,same⟩ := List.mem_map.mp (List.mem_of_mem_filter listed)
  rw [← same]
  exact fun feed => lineFeed_not_mem inside (trim_subset text feed)

end Declaration

theorem Schema.expressible_of_text {text : String} {schema : Schema}
    (read : Schema.ofText text = .ok schema) : schema.Expressible := by
  obtain ⟨state,run,finish⟩ := bind_eq_ok_iff.mp read
  have start : State.Sound {} := ⟨by simp,by simp,by simp,by simp,by simp,by simp⟩
  have sound := run_sound (significantLines_feed _) start run
  unfold State.finish at finish
  split at finish
  next => cases finish
  next =>
    cases finish
    refine ⟨sound.root,sound.externals,sound.distinct,fun node member => ?_⟩
    obtain ⟨node,inside,rfl⟩ := List.mem_map.mp member
    exact (sound.nodes node inside).tagged

/-- Schemas that can be expressed are read from their canonical texts. Whatever text a schema is
read from, it can be expressed, and its canonical text says the same. -/
theorem Schema.ofText_roundTrip (schema : Schema) :
    (schema.Expressible → Schema.ofText schema.toText = .ok schema) ∧
    ∀ text, Schema.ofText text = .ok schema →
      schema.Expressible ∧ Schema.ofText schema.toText = Schema.ofText text := by
  refine ⟨fun ok => ok.ofText_toText,fun text read => ?_⟩
  have ok := Schema.expressible_of_text read
  exact ⟨ok,ok.ofText_toText.trans read.symm⟩

/-- A text that is not canonical: a comment, stray blanks, a comma, attributes in another order. -/
def sampleText : String :=
  "// x\nextern T\n/// A.\n///\nnode A:B#unique#mangle( n,f ) \x7b\n n: string?,\n /// in\n" ++
  " t :T @external_copy  @deferred\n l: [A]\n\x7d"

def sampleDeclared : Schema where
  externals := ["T"]
  nodes := [{
    name := "A"
    superclass := some "B"
    doc := some "A.\n"
    indicators := { unique := true, mangle := some ⟨"n","f"⟩ }
    fields := [
      { name := "n", kind := .primitive .text, policy := { optional := true } },
      { name := "t"
        kind := .primitive (.external "T")
        policy := { bound := false, copyMode := some .external }
        doc := some "in" },
      { name := "l", kind := .list "A" }] }]

theorem Schema.ofText_roundTrip_sample :
    Schema.ofText sampleText = .ok sampleDeclared ∧ sampleDeclared.Expressible ∧
    Schema.ofText sampleDeclared.toText = .ok sampleDeclared := by
  have read : Schema.ofText sampleText = .ok sampleDeclared := by decide +kernel
  have trip := Schema.ofText_roundTrip sampleDeclared
  have ok := (trip.2 sampleText read).1
  exact ⟨read,ok,trip.1 ok⟩

/-- The canonical text of the sample. -/
example : sampleDeclared.toText =
    "extern T\n/// A.\n///\nnode A : B #unique #mangle(n, f) \x7b\n    n: string?\n    /// in\n" ++
    "    t: T @deferred @external_copy\n    l: [A]\n\x7d\n" := by
  decide +kernel

end NodeModel
