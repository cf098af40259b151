import NodeModel.Proofs.Declaration.RoundTrip
import NodeModel.Proofs.Text.Lines

/-! How far a reader gets: the line it stops at, the lines it has passed by then, and the node that
is open between two lines. -/
namespace NodeModel.Declaration

open Text

def Line.of? (number : Nat) (text : List Char) : Option Line :=
  if (trim text).isEmpty || isComment (trim text) then none else some ⟨number, trim text⟩

def significantFrom (first : Nat) (texts : List (List Char)) : List Line :=
  (texts.zipIdx first).filterMap fun place => Line.of? place.2 place.1

theorem significantLines_eq (cs : List Char) :
    significantLines cs = significantFrom 1 (lines cs) := rfl

variable {texts before after : List (List Char)} {text : List Char} {first : Nat}

theorem significantFrom_cons (first : Nat) (text : List Char) (texts : List (List Char)) :
    significantFrom first (text :: texts) =
      (Line.of? first text).toList ++ significantFrom (first + 1) texts := by
  rw [significantFrom,List.zipIdx_cons,List.filterMap_cons]
  cases Line.of? first text <;> rfl

theorem significantFrom_append (first : Nat) (texts more : List (List Char)) :
    significantFrom first (texts ++ more) =
      significantFrom first texts ++ significantFrom (first + texts.length) more := by
  rw [significantFrom,List.zipIdx_append,List.filterMap_append]
  rfl

theorem Line.of?_trim (number : Nat) (text : List Char) :
    Line.of? number (trim text) = Line.of? number text := by
  rw [Line.of?,(tight_trim text).trim_eq]
  rfl

/-- Blanks around lines do not matter. -/
theorem significantFrom_trim (first : Nat) (texts : List (List Char)) :
    significantFrom first (texts.map trim) = significantFrom first texts := by
  induction texts generalizing first with
  | nil => rfl
  | cons text texts ih =>
    rw [List.map_cons,significantFrom_cons,significantFrom_cons,Line.of?_trim,ih]

theorem significantLines_congr {cs cs' : List Char}
    (same : (lines cs).map trim = (lines cs').map trim) :
    significantLines cs = significantLines cs' := by
  rw [significantLines_eq,significantLines_eq,← significantFrom_trim,same,significantFrom_trim]

/-- A line that matters is found in the text, in the place that its number gives. -/
theorem significantFrom_split {passed later : List Line} {line : Line}
    (split : significantFrom first texts = passed ++ line :: later) :
    ∃ before text after, texts = before ++ text :: after ∧ significantFrom first before = passed ∧
      Line.of? (first + before.length) text = some line ∧
      significantFrom (first + before.length + 1) after = later := by
  induction texts generalizing first passed with
  | nil => simp [significantFrom] at split
  | cons text texts ih =>
    rw [significantFrom_cons] at split
    -- The text goes in front of what is found behind it.
    have behind {passed : List Line}
        (split : significantFrom (first + 1) texts = passed ++ line :: later) :
        ∃ before other after, text :: texts = before ++ other :: after ∧
          significantFrom first before = (Line.of? first text).toList ++ passed ∧
          Line.of? (first + before.length) other = some line ∧
          significantFrom (first + before.length + 1) after = later := by
      obtain ⟨before,other,after,rfl,rfl,found,rest⟩ := ih split
      have count : first + 1 + before.length = first + (text :: before).length := by
        rw [List.length_cons]
        omega
      rw [count] at found rest
      exact ⟨text :: before,other,after,rfl,significantFrom_cons ..,found,rest⟩
    cases here : Line.of? first text with
    | none =>
      rw [here] at split behind
      exact behind split
    | some own =>
      rw [here] at split behind
      rw [Option.toList_some,List.singleton_append] at split
      cases passed with
      | nil =>
        obtain ⟨rfl,rest⟩ := List.cons.inj split
        exact ⟨[],text,texts,rfl,rfl,here,rest⟩
      | cons head passed =>
        obtain ⟨rfl,rest⟩ := List.cons.inj split
        exact behind rest

theorem Line.of?_number {number : Nat} {line : Line} (found : Line.of? number text = some line) :
    line = ⟨number,trim text⟩ := by
  unfold Line.of? at found
  split at found
  next => cases found
  next => exact (Option.some.inj found).symm

variable {state next : State} {line : Line} {found : LineProblem} {run : List Line}

theorem step_error_line (refused : state.step line = .error found) : found.line = line.number := by
  obtain ⟨_,_,rfl⟩ := mapError_eq_error_iff.mp refused
  rfl

/-- A run that is refused has come up to some line and is refused there. -/
theorem run_eq_error (refused : run.foldlM State.step state = .error found) :
    ∃ passed line later middle, run = passed ++ line :: later ∧
      passed.foldlM State.step state = .ok middle ∧ middle.step line = .error found := by
  induction run generalizing state with
  | nil => cases refused
  | cons line run ih =>
    rw [List.foldlM_cons] at refused
    cases step : state.step line with
    | error problem =>
      rw [step] at refused
      cases refused
      exact ⟨[],line,run,state,rfl,rfl,step⟩
    | ok next =>
      rw [step] at refused
      obtain ⟨passed,other,later,middle,rfl,passes,stops⟩ := ih refused
      refine ⟨line :: passed,other,later,middle,rfl,?_,stops⟩
      rw [List.foldlM_cons,step]
      exact passes

theorem readHeader_doc (header : List Char) (doc : Option String) :
    readHeader header doc = (readHeader header none).map fun found =>
      { found with node := { found.node with doc } } := by
  unfold readHeader
  split
  next => rfl
  next before after _ =>
    cases readClosing after with
    | error => rfl
    | ok closed =>
      simp only [bind,Except.bind]
      split
      next => rfl
      next =>
        split <;> rfl

def OpensNode (text : List Char) (name : String) : Prop :=
  ∃ rest header, splitKeyword text = ("node".toList, rest) ∧ readHeader rest none = .ok header ∧
    header.closed = false ∧ header.node.name = name

/-- Outside nodes a line leaves none open, unless it opens one itself. -/
theorem step_outside (outside : state.opened = none) (step : state.step line = .ok next) :
    next.opened = none ∨
      ∃ node, next.opened = some ⟨line.number,node⟩ ∧ OpensNode line.text node.name := by
  have read := mapError_eq_ok_iff.mp step
  rw [outside] at read
  dsimp only at read
  unfold State.readOutside at read
  split at read
  next =>
    cases read
    exact .inl outside
  next =>
    simp only at read
    split at read
    next =>
      left
      unfold State.readRoot at read
      split at read
      next => cases read
      next =>
        split at read <;> cases read
        exact outside
    next =>
      left
      unfold State.readExternals at read
      split at read
      next => cases read
      next =>
        split at read <;> cases read
        exact outside
    next keyword =>
      obtain ⟨header,headerRead,read⟩ := bind_eq_ok_iff.mp read
      split at read
      next => cases read; exact .inl rfl
      next closed =>
        cases read
        refine .inr ⟨header.node,rfl,?_⟩
        rw [readHeader_doc] at headerRead
        cases bare : readHeader (splitKeyword line.text).2 none with
        | error => rw [bare] at headerRead; cases headerRead
        | ok found =>
          rw [bare] at headerRead
          cases headerRead
          refine ⟨_,found,Prod.ext ?_ rfl,bare,by simpa using closed,rfl⟩
          exact (String.toList_ofList ..).symm.trans (congrArg String.toList keyword)
    next => cases read
    next => cases read

/-- Inside a node a line closes it or leaves it open, under its number and name. -/
theorem step_inside {opened : OpenNode} (inside : state.opened = some opened)
    (step : state.step line = .ok next) :
    line.text = ['\x7d'] ∧ next.opened = none ∨
      line.text ≠ ['\x7d'] ∧
        ∃ node, next.opened = some ⟨opened.line,node⟩ ∧ node.name = opened.node.name := by
  have read := mapError_eq_ok_iff.mp step
  rw [inside] at read
  dsimp only at read
  unfold State.readInside at read
  split at read
  next brace =>
    cases read
    exact .inl ⟨brace,rfl⟩
  next other =>
    refine .inr ⟨other,?_⟩
    split at read
    next =>
      cases read
      exact ⟨opened.node,inside,rfl⟩
    next =>
      obtain ⟨field,_,read⟩ := bind_eq_ok_iff.mp read
      cases read
      exact ⟨_,rfl,rfl⟩

/-- A node that no line closes stays open. -/
theorem run_inside {opened : OpenNode} (inside : state.opened = some opened)
    (unclosed : ∀ line ∈ run, line.text ≠ ['\x7d'])
    (passes : run.foldlM State.step state = .ok next) :
    ∃ node, next.opened = some ⟨opened.line,node⟩ ∧ node.name = opened.node.name := by
  induction run generalizing state opened with
  | nil =>
    cases passes
    exact ⟨opened.node,inside,rfl⟩
  | cons line run ih =>
    obtain ⟨other,unclosed⟩ := List.forall_mem_cons.mp unclosed
    obtain ⟨middle,step,passes⟩ := bind_eq_ok_iff.mp passes
    obtain ⟨brace,_⟩ | ⟨_,node,here,named⟩ := step_inside inside step
    · exact absurd brace other
    · obtain ⟨last,there,named'⟩ := ih here unclosed passes
      exact ⟨last,there,named'.trans named⟩

/-- A node is open behind these lines: the header has opened it, and no later line has closed it. -/
structure Pending (run : List Line) (opened : OpenNode) (passed : List Line) (header : Line)
    (later : List Line) : Prop where
  split : run = passed ++ header :: later
  opening : ∃ outside inside node, passed.foldlM State.step {} = .ok outside ∧
    outside.opened = none ∧ outside.step header = .ok inside ∧
    inside.opened = some ⟨opened.line,node⟩ ∧ node.name = opened.node.name
  number : header.number = opened.line
  opens : OpensNode header.text opened.node.name
  unclosed : ∀ line ∈ later, line.text ≠ ['\x7d']

theorem pending_of_run {opened : OpenNode} (passes : run.foldlM State.step {} = .ok state)
    (inside : state.opened = some opened) :
    ∃ passed header later, Pending run opened passed header later := by
  -- The last line opens the node or leaves it open.
  induction run using List.reverseRecOn generalizing state opened with
  | nil =>
    cases passes
    cases inside
  | append_singleton run line ih =>
    rw [List.foldlM_append] at passes
    obtain ⟨middle,earlier,rest⟩ := bind_eq_ok_iff.mp passes
    obtain ⟨last,step,done⟩ := bind_eq_ok_iff.mp rest
    cases done
    cases before : middle.opened with
    | none =>
      obtain none | ⟨node,here,opens⟩ := step_outside before step
      · simp [none] at inside
      · obtain rfl : opened = ⟨line.number,node⟩ := Option.some.inj (inside.symm.trans here)
        exact ⟨run,line,[],rfl,⟨middle,state,node,earlier,before,step,here,rfl⟩,rfl,opens,by simp⟩
    | some other =>
      obtain ⟨_,none⟩ | ⟨unclosed,node,here,named⟩ := step_inside before step
      · simp [none] at inside
      · obtain rfl : opened = ⟨other.line,node⟩ := Option.some.inj (inside.symm.trans here)
        obtain ⟨passed,header,later,pending⟩ := ih earlier before
        refine ⟨passed,header,later ++ [line],?_,?_,pending.number,?_,?_⟩
        · rw [pending.split,List.append_assoc,List.cons_append]
        · rw [named]
          exact pending.opening
        · rw [named]
          exact pending.opens
        · exact List.forall_mem_append.mpr ⟨pending.unclosed,List.forall_mem_singleton.mpr unclosed⟩

/-- Up to any later line the same node is open. -/
theorem Pending.stays {opened : OpenNode} {passed later part rest : List Line} {header : Line}
    (pending : Pending run opened passed header later) (split : later = part ++ rest)
    (passes : run.foldlM State.step {} = .ok state) :
    ∃ middle node, (passed ++ header :: part).foldlM State.step {} = .ok middle ∧
      middle.opened = some ⟨opened.line,node⟩ ∧ node.name = opened.node.name := by
  obtain ⟨outside,inside,node,before,_,step,here,named⟩ := pending.opening
  have whole : run = (passed ++ header :: part) ++ rest := by
    rw [pending.split,split,List.append_assoc,List.cons_append]
  rw [whole,List.foldlM_append] at passes
  obtain ⟨middle,upTo,_⟩ := bind_eq_ok_iff.mp passes
  have behind : part.foldlM State.step inside = .ok middle := by
    rw [List.foldlM_append,before] at upTo
    change (header :: part).foldlM State.step outside = .ok middle at upTo
    rwa [List.foldlM_cons,step] at upTo
  have unclosed : ∀ line ∈ part, line.text ≠ ['\x7d'] := fun line member =>
    pending.unclosed line (split ▸ List.mem_append_left _ member)
  obtain ⟨last,there,named'⟩ := run_inside here unclosed behind
  exact ⟨middle,last,upTo,there,named'.trans named⟩

theorem finish_eq_error (refused : state.finish = .error found) :
    ∃ opened, state.opened = some opened ∧
      found = ⟨opened.line,.unclosedNode opened.node.name⟩ := by
  unfold State.finish at refused
  split at refused
  next opened inside => exact ⟨opened,inside,(Except.error.inj refused).symm⟩
  next => cases refused

/-- A text is refused at one of its lines, or because a node is open at its end. -/
theorem readLines_eq_error {cs : List Char} (refused : readLines cs = .error found) :
    (∃ passed line later middle, significantLines cs = passed ++ line :: later ∧
      passed.foldlM State.step {} = .ok middle ∧ middle.step line = .error found) ∨
    ∃ state opened, (significantLines cs).foldlM State.step {} = .ok state ∧
      state.opened = some opened ∧ found = ⟨opened.line,.unclosedNode opened.node.name⟩ := by
  unfold readLines at refused
  cases passes : (significantLines cs).foldlM State.step {} with
  | error problem =>
    rw [passes] at refused
    cases refused
    exact .inl (run_eq_error passes)
  | ok state =>
    rw [passes] at refused
    obtain ⟨opened,inside,same⟩ := finish_eq_error refused
    exact .inr ⟨state,opened,rfl,inside,same⟩

/-- Problems are reported at lines that matter. -/
theorem exists_line_of_error {cs : List Char} (refused : readLines cs = .error found) :
    ∃ line ∈ significantLines cs, line.number = found.line := by
  obtain ⟨passed,line,later,_,split,_,stops⟩ | ⟨state,opened,passes,inside,rfl⟩ :=
    readLines_eq_error refused
  · exact ⟨line,by simp [split],(step_error_line stops).symm⟩
  · obtain ⟨passed,header,later,pending⟩ := pending_of_run passes inside
    exact ⟨header,by simp [pending.split],pending.number⟩

end NodeModel.Declaration
