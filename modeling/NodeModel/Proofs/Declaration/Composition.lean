import NodeModel.Proofs.Declaration.RoundTrip

/-! Declaration texts one after the other. Reading the second text goes on from the schema of the
first as it would go on from nothing: the same lines are read or refused, under higher numbers. Only
a second root and documentation left behind by the first text could tell the difference. -/
namespace NodeModel

def Schema.merge (first second : Schema) : Schema where
  root := first.root.or second.root
  externals := mergeNames first.externals second.externals
  nodes := first.nodes ++ second.nodes

theorem Schema.merge_empty (schema : Schema) : schema.merge {} = schema := by
  simp [merge,mergeNames]

/-- Externals may be told apart in both parts before they are told apart in the whole. -/
theorem Schema.tagged_merge (first second : Schema) :
    (first.tagged.merge second.tagged).tagged = (first.merge second).tagged := by
  simp only [tagged,merge,List.map_append,
    map_tagged_tagged (subset_mergeNames_left first.externals second.externals),
    map_tagged_tagged (subset_mergeNames_right first.externals second.externals)]

namespace Declaration

open Text

def isDocumentation (text : List Char) : Bool := (stripStart "///".toList text).isSome

theorem isDocumentation_of_some {text doc : List Char}
    (marked : stripStart "///".toList text = some doc) : isDocumentation text = true := by
  rw [isDocumentation,marked]
  rfl

theorem isDocumentation_of_none {text : List Char} (plain : stripStart "///".toList text = none) :
    isDocumentation text = false := by
  rw [isDocumentation,plain]
  rfl

inductive State.Follows (state : State) (line : Line) : State → Prop where
  | document {text : List Char} (marked : isDocumentation line.text = true) :
      Follows state line (state.addDoc text)
  | field {opened : OpenNode} {field : FieldDecl} (plain : isDocumentation line.text = false)
      (inside : state.opened = some opened) :
      Follows state line { state with
        doc := []
        opened := some { opened with
          node := { opened.node with fields := opened.node.fields ++ [field] } } }
  | close {opened : OpenNode} (plain : isDocumentation line.text = false)
      (inside : state.opened = some opened) : Follows state line (state.addNode opened.node)
  | root {name : String} (plain : isDocumentation line.text = false)
      (fresh : state.schema.root = none) :
      Follows state line
        { state with schema := { state.schema with root := some name }, doc := [] }
  | externals {names : List String} (plain : isDocumentation line.text = false) :
      Follows state line { state with
        schema := { state.schema with externals := mergeNames state.schema.externals names }
        doc := [] }
  | node {node : NodeDecl} (plain : isDocumentation line.text = false) :
      Follows state line (state.addNode node)
  | opening {node : NodeDecl} (plain : isDocumentation line.text = false) :
      Follows state line { state with doc := [], opened := some ⟨line.number,node⟩ }

variable {state next : State} {line : Line}

theorem readInside_follows {opened : OpenNode} (inside : state.opened = some opened)
    (read : state.readInside opened line.text = .ok next) : state.Follows line next := by
  unfold State.readInside at read
  split at read
  next brace =>
    cases read
    exact .close (by rw [brace]; rfl) inside
  next =>
    split at read
    next doc found =>
      cases read
      exact .document (isDocumentation_of_some found)
    next none =>
      obtain ⟨field,_,read⟩ := bind_eq_ok_iff.mp read
      cases read
      exact .field (isDocumentation_of_none none) inside

theorem readOutside_follows (read : state.readOutside line.number line.text = .ok next) :
    state.Follows line next := by
  unfold State.readOutside at read
  split at read
  next doc found =>
    cases read
    exact .document (isDocumentation_of_some found)
  next none =>
    have plain : isDocumentation line.text = false := isDocumentation_of_none none
    simp only at read
    split at read
    next =>
      unfold State.readRoot at read
      split at read
      next => cases read
      next =>
        split at read
        next => cases read
        next fresh => cases read; exact .root plain fresh
    next =>
      unfold State.readExternals at read
      split at read
      next => cases read
      next =>
        split at read
        next => cases read
        next => cases read; exact .externals plain
    next =>
      obtain ⟨header,_,read⟩ := bind_eq_ok_iff.mp read
      split at read
      next => cases read; exact .node plain
      next => cases read; exact .opening plain
    next => cases read
    next => cases read

theorem step_follows (step : state.step line = .ok next) : state.Follows line next := by
  unfold State.step at step
  have read := mapError_eq_ok_iff.mp step
  split at read
  next opened inside => exact readInside_follows inside read
  next => exact readOutside_follows read

/-- A root that has been declared stays. -/
theorem State.Follows.root_eq_none (follows : state.Follows line next)
    (rootless : next.schema.root = none) : state.schema.root = none := by
  cases follows with
  | root _ fresh => exact fresh
  | _ => exact rootless

theorem run_root_eq_none {lines : List Line} (run : lines.foldlM State.step state = .ok next)
    (rootless : next.schema.root = none) : state.schema.root = none := by
  induction lines generalizing state with
  | nil => cases run; exact rootless
  | cons line lines ih =>
    obtain ⟨middle,step,later⟩ := bind_eq_ok_iff.mp run
    exact (step_follows step).root_eq_none (ih later)

/-- Whatever is declared takes the documentation before it along. -/
theorem State.Follows.doc_eq_nil (follows : state.Follows line next)
    (plain : isDocumentation line.text = false) : next.doc = [] := by
  cases follows with
  | document marked => simp [marked] at plain
  | _ => rfl

/-- No documentation waits at the end of a text. What follows the last declaration of a text that
can be read is documentation if it is anything, so the last line that matters decides. -/
def Settled (cs : List Char) : Prop :=
  ∀ line ∈ (significantLines cs).getLast?, isDocumentation line.text = false

theorem run_doc_eq_nil {lines : List Line} (start : state.doc = [])
    (run : lines.foldlM State.step state = .ok next)
    (settled : ∀ line ∈ lines.getLast?, isDocumentation line.text = false) : next.doc = [] := by
  rcases List.eq_nil_or_concat' lines with rfl | ⟨front,last,rfl⟩
  · cases run
    exact start
  · rw [List.foldlM_append] at run
    obtain ⟨middle,_,run⟩ := bind_eq_ok_iff.mp run
    obtain ⟨final,step,done⟩ := bind_eq_ok_iff.mp run
    cases done
    exact (step_follows step).doc_eq_nil (settled last (by simp))

def Line.shifted (count : Nat) (line : Line) : Line := { line with number := count + line.number }

def OpenNode.shifted (count : Nat) (opened : OpenNode) : OpenNode :=
  { opened with line := count + opened.line }

def LineProblem.shifted (count : Nat) (problem : LineProblem) : LineProblem :=
  { problem with line := count + problem.line }

theorem significantLines_append {cs : List Char} (ended : Ended cs) (rest : List Char) :
    significantLines (cs ++ rest) = significantLines cs ++
      (significantLines rest).map (·.shifted (lines cs).length) := by
  have later (texts : List (List Char)) (first count : Nat) :
      ((texts.zipIdx (first + count)).filterMap fun place =>
        if (trim place.1).isEmpty || isComment (trim place.1) then none
        else some (Line.mk place.2 (trim place.1))) =
      ((texts.zipIdx first).filterMap fun place =>
        if (trim place.1).isEmpty || isComment (trim place.1) then none
        else some (Line.mk place.2 (trim place.1))).map (·.shifted count) := by
    induction texts generalizing first with
    | nil => rfl
    | cons text texts ih =>
      have rest := ih (first + 1)
      rw [Nat.add_right_comm] at rest
      simp only [List.zipIdx_cons,List.filterMap_cons,rest]
      cases skipped : (trim text).isEmpty || isComment (trim text) with
      | true => rfl
      | false => simp [Line.shifted,Nat.add_comm]
  rw [significantLines,lines_append ended,List.zipIdx_append,List.filterMap_append]
  exact congrArg (significantLines cs ++ ·) (later (lines rest) 1 (lines cs).length)

/-- A state that is reached behind a text with the given schema and number of lines. -/
def State.after (base : Schema) (count : Nat) (state : State) : State where
  schema := base.merge state.schema
  doc := state.doc
  opened := state.opened.map (·.shifted count)

variable {base : Schema} {count : Nat}

theorem after_addNode (node : NodeDecl) :
    (state.after base count).addNode node = (state.addNode node).after base count := by
  simp [State.addNode,State.after,Schema.merge]

theorem readInside_after (opened : OpenNode) (text : List Char) :
    (state.after base count).readInside (opened.shifted count) text =
      (state.readInside opened text).map (State.after base count) := by
  have pending : (state.after base count).pendingDoc = state.pendingDoc := rfl
  unfold State.readInside
  split
  · exact congrArg Except.ok (after_addNode opened.node)
  · split
    · rfl
    · rw [pending]
      cases readField text state.pendingDoc <;> rfl

theorem readRoot_after (rootless : base.root = none) (rest : List Char) :
    (state.after base count).readRoot rest =
      (state.readRoot rest).map (State.after base count) := by
  have same : (state.after base count).schema.root = state.schema.root := by
    simp [State.after,Schema.merge,rootless]
  unfold State.readRoot
  rw [same]
  split
  · rfl
  · cases state.schema.root with
    | some => rfl
    | none => simp [State.after,Schema.merge,rootless,Except.map]

theorem readExternals_after (rest : List Char) :
    (state.after base count).readExternals rest =
      (state.readExternals rest).map (State.after base count) := by
  unfold State.readExternals
  split
  · rfl
  · split
    · rfl
    · simp [State.after,Schema.merge,Except.map,mergeNames_assoc]

theorem readNode_after (number : Nat) (rest : List Char) :
    (state.after base count).readNode (count + number) rest =
      (state.readNode number rest).map (State.after base count) := by
  have pending : (state.after base count).pendingDoc = state.pendingDoc := rfl
  unfold State.readNode
  rw [pending]
  cases readHeader rest state.pendingDoc with
  | error => rfl
  | ok header =>
    simp only [bind,Except.bind]
    split
    · exact congrArg Except.ok (after_addNode header.node)
    · rfl

/-- The lines that a root could be declared on apart, a line is read alike wherever it stands. -/
theorem readOutside_after {number : Nat} {text : List Char}
    (rootless : base.root = none ∨ ∃ next, state.readOutside number text = .ok next ∧
      next.schema.root = none) :
    (state.after base count).readOutside (count + number) text =
      (state.readOutside number text).map (State.after base count) := by
  unfold State.readOutside at rootless ⊢
  split
  · rfl
  next none =>
    simp only [none] at rootless
    simp only
    split
    next word =>
      refine readRoot_after (rootless.resolve_right ?_) _
      rintro ⟨next,read,missing⟩
      simp only [word] at read
      unfold State.readRoot at read
      split at read
      next => cases read
      next =>
        split at read
        next => cases read
        next => cases read; cases missing
    next => exact readExternals_after _
    next => exact readNode_after number _
    next => rfl
    next => rfl

def moved (base : Schema) (count : Nat) : Except LineProblem State → Except LineProblem State
  | .ok state => .ok (state.after base count)
  | .error problem => .error (problem.shifted count)

theorem step_after (rootless : base.root = none ∨
      ∃ next, state.step line = .ok next ∧ next.schema.root = none) :
    (state.after base count).step (line.shifted count) = moved base count (state.step line) := by
  have move (result : Except Problem State) :
      (result.map (State.after base count)).mapError (LineProblem.mk (count + line.number)) =
        moved base count (result.mapError (LineProblem.mk line.number)) := by
    cases result <;> rfl
  unfold State.step at rootless ⊢
  cases inside : state.opened with
  | some opened =>
    have there : (state.after base count).opened = some (opened.shifted count) := by
      simp [State.after,inside]
    simp only [there]
    exact (congrArg _ (readInside_after opened line.text)).trans (move _)
  | none =>
    have there : (state.after base count).opened = none := by simp [State.after,inside]
    simp only [inside] at rootless
    have outside : base.root = none ∨ ∃ next,
        state.readOutside line.number line.text = .ok next ∧ next.schema.root = none :=
      rootless.imp_right fun ⟨next,read,missing⟩ => ⟨next,mapError_eq_ok_iff.mp read,missing⟩
    simp only [there]
    exact (congrArg _ (readOutside_after outside)).trans (move _)

/-- A run behind another text is the run on its own, moved. Where the other text declares a root,
this one must come through without. -/
theorem run_after {lines : List Line} (rootless : base.root = none ∨
      ∃ last, lines.foldlM State.step state = .ok last ∧ last.schema.root = none) :
    (lines.map (·.shifted count)).foldlM State.step (state.after base count) =
      moved base count (lines.foldlM State.step state) := by
  induction lines generalizing state with
  | nil => rfl
  | cons line lines ih =>
    have first : base.root = none ∨
        ∃ next, state.step line = .ok next ∧ next.schema.root = none := by
      refine rootless.imp_right fun ⟨last,run,missing⟩ => ?_
      obtain ⟨next,step,later⟩ := bind_eq_ok_iff.mp run
      exact ⟨next,step,run_root_eq_none later missing⟩
    rw [List.map_cons,List.foldlM_cons,List.foldlM_cons,step_after first]
    rw [List.foldlM_cons] at rootless
    cases step : state.step line with
    | error problem => rfl
    | ok next =>
      rw [step] at rootless
      exact ih rootless

/-- Where reading a text comes to before externals are told apart. -/
theorem readLines_eq_ok {cs : List Char} {schema : Schema} (read : readLines cs = .ok schema) :
    ∃ state, (significantLines cs).foldlM State.step {} = .ok state ∧ state.opened = none ∧
      state.schema.tagged = schema := by
  obtain ⟨state,run,finish⟩ := bind_eq_ok_iff.mp read
  unfold State.finish at finish
  split at finish
  next => cases finish
  next closed =>
    cases finish
    exact ⟨state,run,closed,rfl⟩

/-- The schema that a settled text leaves for the lines behind it. -/
theorem readLines_settled {cs : List Char} {schema : Schema} (read : readLines cs = .ok schema)
    (settled : Settled cs) :
    ∃ base, (significantLines cs).foldlM State.step {} = .ok { schema := base } ∧
      base.tagged = schema := by
  obtain ⟨state,run,closed,same⟩ := readLines_eq_ok read
  have quiet := run_doc_eq_nil rfl run settled
  obtain ⟨base,doc,opened⟩ := state
  obtain rfl : doc = [] := quiet
  obtain rfl : opened = none := closed
  exact ⟨base,run,same⟩

/-- Reading two texts is reading the second behind the first. -/
theorem readLines_append {cs rest : List Char} (ended : Ended cs)
    (run : (significantLines cs).foldlM State.step {} = .ok { schema := base })
    (rootless : base.root = none ∨ ∃ last,
      (significantLines rest).foldlM State.step {} = .ok last ∧ last.schema.root = none) :
    readLines (cs ++ rest) = moved base (lines cs).length
      ((significantLines rest).foldlM State.step {}) >>= State.finish := by
  have start : ({} : State).after base (lines cs).length = { schema := base } := by
    simp [State.after,Schema.merge_empty]
  rw [readLines,significantLines_append ended,List.foldlM_append,run]
  exact congrArg (· >>= State.finish) (start ▸ run_after rootless)

end Declaration

open Declaration Text

/-- Reading texts is compositional. Behind a text that is read and leaves no documentation waiting,
another text adds its externals and nodes to those of the first, or is refused for the same reason
as alone, at a line that is counted from the start of the first. -/
theorem Schema.ofText_append {before after : String} {first : Schema}
    (ended : Ended before.toList) (settled : Settled before.toList)
    (read : Schema.ofText before = .ok first) :
    (∀ second, Schema.ofText after = .ok second → first.root = none ∨ second.root = none →
      Schema.ofText (before ++ after) = .ok (Schema.tagged
        { root := first.root.or second.root
          externals := first.externals ++ second.externals.filter (!first.externals.contains ·)
          nodes := first.nodes ++ second.nodes })) ∧
    (∀ line problem, Schema.ofText after = .error ⟨line,problem⟩ → first.root = none →
      Schema.ofText (before ++ after) =
        .error ⟨(lines before.toList).length + line,problem⟩) := by
  obtain ⟨base,run,rfl⟩ := readLines_settled read settled
  unfold Schema.ofText
  rw [String.toList_append]
  constructor
  · intro second read' single
    obtain ⟨state,run',closed,rfl⟩ := readLines_eq_ok read'
    have distinct : state.schema.externals.Nodup := (Schema.expressible_of_text read').distinct
    rw [readLines_append ended run (single.imp_right fun missing => ⟨state,run',missing⟩),run']
    have finish : (state.after base (lines before.toList).length).finish =
        .ok (base.merge state.schema).tagged := by
      simp [State.finish,State.after,closed]
    refine finish.trans (congrArg Except.ok ?_)
    rw [← Schema.tagged_merge,Schema.merge]
    exact congrArg (fun externals => Schema.tagged ⟨_,externals,_⟩) (mergeNames_eq_filter _ distinct)
  · intro line problem refused rootless
    rw [readLines_append ended run (.inl rootless)]
    unfold readLines at refused
    cases run' : (significantLines after.toList).foldlM State.step {} with
    | error problem' =>
      rw [run'] at refused
      cases refused
      rfl
    | ok state =>
      rw [run'] at refused
      have finish : state.finish = .error ⟨line,problem⟩ := refused
      unfold State.finish at finish
      split at finish
      next opened inside =>
        cases finish
        simp [moved,bind,Except.bind,State.finish,State.after,inside,OpenNode.shifted]
      next => cases finish

def leadingText : String := "extern T\nnode A \x7b\n    t: U\n\x7d\n"

def leadingSchema : Schema where
  externals := ["T"]
  nodes := [{ name := "A", fields := [{ name := "t", kind := .single "U" }] }]

def trailingText : String := "root R\nextern U, T\nnode B : A \x7b\n    s: T?\n\x7d"

def trailingSchema : Schema where
  root := some "R"
  externals := ["U","T"]
  nodes := [{
    name := "B"
    superclass := some "A"
    fields := [{
      name := "s"
      kind := .primitive (.external "T")
      policy := { optional := true } }] }]

theorem Schema.ofText_append_late :
    Ended leadingText.toList ∧ Settled leadingText.toList ∧
    Schema.ofText leadingText = .ok leadingSchema ∧ Schema.ofText trailingText = .ok trailingSchema ∧
    Schema.ofText (leadingText ++ trailingText) = .ok
      { root := some "R"
        externals := ["T","U"]
        nodes :=
          { name := "A", fields := [{ name := "t", kind := .primitive (.external "U") }] } ::
          trailingSchema.nodes } ∧
    Schema.ofText "node B \x7b\n    s T\n\x7d" = .error ⟨2,.missingColon⟩ ∧
    Schema.ofText (leadingText ++ "node B \x7b\n    s T\n\x7d") = .error ⟨6,.missingColon⟩ := by
  have ended : Ended leadingText.toList := .inr (by decide +kernel)
  have settled : Settled leadingText.toList := by unfold Settled; decide +kernel
  have read : Schema.ofText leadingText = .ok leadingSchema := by decide +kernel
  have read' : Schema.ofText trailingText = .ok trailingSchema := by decide +kernel
  have refused : Schema.ofText "node B \x7b\n    s T\n\x7d" = .error ⟨2,.missingColon⟩ := by
    decide +kernel
  have count : (lines leadingText.toList).length = 4 := by decide +kernel
  have whole := (Schema.ofText_append ended settled read).1 trailingSchema read' (.inl rfl)
  have later := (Schema.ofText_append ended settled read).2 2 .missingColon refused rfl
  rw [count] at later
  refine ⟨ended,settled,read,read',whole.trans ?_,refused,later⟩
  decide +kernel

end NodeModel
