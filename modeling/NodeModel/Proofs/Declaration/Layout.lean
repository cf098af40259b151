import NodeModel.Proofs.Declaration.Progress

/-! The layout of a declaration text does not matter: line ends, blanks around lines, blank lines
and comments can go without a change to what is read. Only reports tell, by the numbers of their
lines. -/
namespace NodeModel

namespace Declaration

open Text

section

variable (number : Nat → Nat)

def Line.renumbered (line : Line) : Line := { line with number := number line.number }

def OpenNode.renumbered (opened : OpenNode) : OpenNode := { opened with line := number opened.line }

def State.renumbered (state : State) : State :=
  { state with opened := state.opened.map (·.renumbered number) }

def LineProblem.renumbered (found : LineProblem) : LineProblem :=
  { found with line := number found.line }

variable {number} {state : State} {line : Line}

theorem readInside_renumbered (opened : OpenNode) (text : List Char) :
    (state.renumbered number).readInside (opened.renumbered number) text =
      (state.readInside opened text).map (State.renumbered number) := by
  have pending : (state.renumbered number).pendingDoc = state.pendingDoc := rfl
  unfold State.readInside
  split
  · rfl
  · split
    · rfl
    · rw [pending]
      cases readField text state.pendingDoc <;> rfl

theorem readOutside_renumbered (count : Nat) (text : List Char) :
    (state.renumbered number).readOutside (number count) text =
      (state.readOutside count text).map (State.renumbered number) := by
  have pending : (state.renumbered number).pendingDoc = state.pendingDoc := rfl
  have schema : (state.renumbered number).schema = state.schema := rfl
  unfold State.readOutside
  split
  · rfl
  · dsimp only
    split
    · unfold State.readRoot
      rw [schema]
      split
      · rfl
      · split <;> rfl
    · unfold State.readExternals
      rw [schema]
      split
      · rfl
      · split <;> rfl
    · unfold State.readNode
      rw [pending]
      cases readHeader (splitKeyword text).2 state.pendingDoc with
      | error => rfl
      | ok header =>
        simp only [bind,Except.bind]
        split <;> rfl
    · rfl
    · rfl

/-- A line is read alike under another number. -/
theorem step_renumbered : (state.renumbered number).step (line.renumbered number) =
    ((state.step line).map (State.renumbered number)).mapError (LineProblem.renumbered number) := by
  have move (result : Except Problem State) :
      (result.map (State.renumbered number)).mapError (LineProblem.mk (number line.number)) =
        ((result.mapError (LineProblem.mk line.number)).map (State.renumbered number)).mapError
          (LineProblem.renumbered number) := by
    cases result <;> rfl
  unfold State.step
  cases inside : state.opened with
  | some opened =>
    have there : (state.renumbered number).opened = some (opened.renumbered number) := by
      simp [State.renumbered,inside]
    simp only [there]
    exact (congrArg _ (readInside_renumbered opened line.text)).trans (move _)
  | none =>
    have there : (state.renumbered number).opened = none := by simp [State.renumbered,inside]
    simp only [there]
    exact (congrArg _ (readOutside_renumbered line.number line.text)).trans (move _)

theorem run_renumbered (state : State) (run : List Line) :
    (run.map (Line.renumbered number)).foldlM State.step (state.renumbered number) =
      ((run.foldlM State.step state).map (State.renumbered number)).mapError
        (LineProblem.renumbered number) := by
  induction run generalizing state with
  | nil => rfl
  | cons line run ih =>
    rw [List.map_cons,List.foldlM_cons,List.foldlM_cons,step_renumbered]
    cases state.step line with
    | error => rfl
    | ok next => exact ih next

theorem finish_renumbered : (state.renumbered number).finish =
    state.finish.mapError (LineProblem.renumbered number) := by
  unfold State.finish
  cases inside : state.opened <;> simp [State.renumbered,inside] <;> rfl

/-- Texts whose lines differ in their numbers alone are read alike. -/
theorem readLines_renumbered {cs cs' : List Char}
    (same : significantLines cs' = (significantLines cs).map (Line.renumbered number)) :
    readLines cs' = (readLines cs).mapError (LineProblem.renumbered number) := by
  have run : ((significantLines cs).map (Line.renumbered number)).foldlM State.step {} =
      (((significantLines cs).foldlM State.step {}).map (State.renumbered number)).mapError
        (LineProblem.renumbered number) := run_renumbered {} _
  rw [readLines,readLines,same,run]
  cases (significantLines cs).foldlM State.step {} with
  | error => rfl
  | ok state => exact finish_renumbered

end

def isKept (text : List Char) : Bool := !(text.isEmpty || isComment text)

/-- The lines of a text without the blanks around them, but for blank lines and comments. -/
def keptLines (cs : List Char) : List (List Char) := ((lines cs).map trim).filter isKept

/-- The numbers of these lines in the whole text, counted from one. -/
def keptNumbers (cs : List Char) : List Nat :=
  (((lines cs).zipIdx 1).filter fun place => isKept (trim place.1)).map (·.2)

theorem map_text_significantLines (cs : List Char) :
    (significantLines cs).map Line.text = keptLines cs := significantLines_texts cs

theorem map_number_significantLines (cs : List Char) :
    (significantLines cs).map Line.number = keptNumbers cs := by
  rw [significantLines_eq,significantFrom,keptNumbers]
  generalize (lines cs).zipIdx 1 = places
  induction places with
  | nil => rfl
  | cons place places ih =>
    rw [List.filterMap_cons,List.filter_cons,Line.of?]
    cases skipped : (trim place.1).isEmpty || isComment (trim place.1) with
    | true => simpa [isKept,skipped] using ih
    | false => simpa [isKept,skipped] using ih

def stripped (source : String) : String :=
  String.ofList (['\n'].intercalate (keptLines source.toList))

theorem of_mem_keptLines {cs text : List Char} (member : text ∈ keptLines cs) :
    Tight text ∧ '\n' ∉ text ∧ isKept text = true := by
  obtain ⟨inside,kept⟩ := List.mem_filter.mp member
  obtain ⟨line,listed,rfl⟩ := List.mem_map.mp inside
  exact ⟨tight_trim line,fun feed => lineFeed_not_mem listed (trim_subset line feed),kept⟩

theorem isKept_ne_nil {text : List Char} (kept : isKept text = true) : text ≠ [] := by
  rintro rfl
  exact absurd kept (by decide)

theorem lines_stripped (source : String) :
    lines (stripped source).toList = keptLines source.toList := by
  rw [stripped,String.toList_ofList]
  exact lines_intercalate (fun text member => (of_mem_keptLines member).2.1)
    (fun text member => isKept_ne_nil (of_mem_keptLines member).2.2)
    (fun text member => (of_mem_keptLines member).1)

/-- Where every line is kept, lines are numbered one after the other. -/
theorem significantFrom_kept (first : Nat) {texts : List (List Char)}
    (kept : ∀ text ∈ texts, Tight text ∧ isKept text = true) :
    significantFrom first texts = (texts.zipIdx first).map fun place => ⟨place.2,place.1⟩ := by
  induction texts generalizing first with
  | nil => rfl
  | cons text texts ih =>
    obtain ⟨⟨tight,here⟩,later⟩ := List.forall_mem_cons.mp kept
    have own : Line.of? first text = some ⟨first,text⟩ := by
      rw [Line.of?,tight.trim_eq,if_neg (by simpa [isKept] using here)]
    rw [significantFrom_cons,own,ih (first + 1) later]
    rfl

def originalNumber (cs : List Char) (count : Nat) : Nat := (keptNumbers cs).getD (count - 1) 0

theorem significantLines_stripped (source : String) : significantLines source.toList =
    (significantLines (stripped source).toList).map
      (Line.renumbered (originalNumber source.toList)) := by
  rw [significantLines_eq (stripped source).toList,lines_stripped,significantFrom_kept 1]
  · refine List.ext_getElem ?_ fun index inside _ => ?_
    · simp [← map_text_significantLines]
    · simp only [List.map_map,List.getElem_map,List.getElem_zipIdx,Function.comp_apply,
        Line.renumbered,originalNumber,← map_text_significantLines,← map_number_significantLines]
      simp [inside]
  · exact fun text member => ⟨(of_mem_keptLines member).1,(of_mem_keptLines member).2.2⟩

/-- What is read from a text, against what is read from its kept lines alone: the same schema, or
the same problem at the same line, which has another number in the whole text. -/
def SameOutcome (numbers : List Nat) :
    Except LineProblem Schema → Except LineProblem Schema → Prop
  | .ok alone, .ok whole => alone = whole
  | .error alone, .error whole => alone.problem = whole.problem ∧
      ∃ index, alone.line = index + 1 ∧ numbers[index]? = some whole.line
  | _, _ => False

def outcome (source : String) : Except Problem Schema :=
  (Schema.ofText source).mapError LineProblem.problem

theorem sameOutcome_renumbered {numbers : List Nat} {place : Nat → Nat}
    {result : Except LineProblem Schema} (placed : ∀ found, result = .error found →
      ∃ index, found.line = index + 1 ∧ numbers[index]? = some (place found.line)) :
    SameOutcome numbers result (result.mapError (LineProblem.renumbered place)) := by
  cases result with
  | ok schema => exact rfl
  | error found => exact ⟨rfl,placed found rfl⟩

theorem ofText_stripped (source : String) : Schema.ofText source =
    (Schema.ofText (stripped source)).mapError
      (LineProblem.renumbered (originalNumber source.toList)) :=
  readLines_renumbered (significantLines_stripped source)

theorem outcome_stripped (source : String) : outcome source = outcome (stripped source) := by
  rw [outcome,ofText_stripped,outcome]
  cases Schema.ofText (stripped source) <;> rfl

/-- A problem of the kept lines is reported at one of them. -/
theorem line_of_stripped (source : String) (found : LineProblem)
    (refused : Schema.ofText (stripped source) = .error found) :
    ∃ index, found.line = index + 1 ∧
      (keptNumbers source.toList)[index]? = some (originalNumber source.toList found.line) := by
  obtain ⟨line,member,number⟩ := exists_line_of_error refused
  rw [significantLines_eq,lines_stripped,significantFrom_kept 1 fun text inside =>
    ⟨(of_mem_keptLines inside).1,(of_mem_keptLines inside).2.2⟩] at member
  obtain ⟨place,inside,rfl⟩ := List.mem_map.mp member
  obtain ⟨index,bound,rfl⟩ := List.mem_iff_getElem.mp inside
  have size : index < (keptNumbers source.toList).length := by
    rw [← map_number_significantLines,List.length_map]
    simpa [← map_text_significantLines] using bound
  refine ⟨index,?_,?_⟩
  · rw [← number]
    simp [Nat.add_comm]
  · rw [← number]
    simp [originalNumber,size]

theorem keptLines_append {cs : List Char} {before between after : List (List Char)}
    (skipped : ∀ line ∈ between, isKept (trim line) = false)
    (listed : lines cs = before ++ between ++ after) :
    keptLines cs = ((before ++ after).map trim).filter isKept := by
  have none : (between.map trim).filter isKept = [] := by
    simpa [List.filter_eq_nil_iff] using skipped
  rw [keptLines,listed]
  simp only [List.map_append,List.filter_append,none,List.append_nil]

end Declaration

open Declaration Text

/-- Layout does not matter. A text is read like its kept lines alone, up to the numbers of lines in
reports; so texts with the same kept lines are read alike. Numbers change only where lines do: line
ends and blanks around lines leave them, and comments or blank lines between two lines leave all but
the numbers. -/
theorem Schema.ofText_layout (source : String) :
    SameOutcome (keptNumbers source.toList) (Schema.ofText (stripped source))
      (Schema.ofText source) ∧
    (∀ other, stripped other = stripped source → outcome other = outcome source) ∧
    (∀ other : String, (lines other.toList).map trim = (lines source.toList).map trim →
      Schema.ofText other = Schema.ofText source) ∧
    Schema.ofText (String.ofList (withReturns source.toList)) = Schema.ofText source ∧
    ∀ (other : String) (before between after : List (List Char)),
      (∀ line ∈ between, isKept (trim line) = false) →
      lines source.toList = before ++ after → lines other.toList = before ++ between ++ after →
      outcome other = outcome source := by
  have alike (other : String) (same : stripped other = stripped source) :
      outcome other = outcome source := by
    rw [outcome_stripped,same,← outcome_stripped]
  have trimmed (other : String)
      (same : (lines other.toList).map trim = (lines source.toList).map trim) :
      Schema.ofText other = Schema.ofText source := by
    rw [Schema.ofText,readLines,significantLines_congr same]
    rfl
  refine ⟨?_,alike,trimmed,?_,?_⟩
  · rw [ofText_stripped source]
    have placed := line_of_stripped source
    generalize Schema.ofText (stripped source) = result at placed ⊢
    exact sameOutcome_renumbered placed
  · exact trimmed _ (by rw [String.toList_ofList,lines_withReturns])
  · intro other before between after skipped listed listed'
    refine alike other ?_
    rw [stripped,stripped,keptLines_append skipped listed',keptLines,listed]

def messyText : String :=
  "\tnode A \x7b\x7d \r\n\r\n /// B.\n // note\n\u00a0node B \x7b\r\n  x string\n\x7d"

def tidyText : String := "node A \x7b\x7d\n/// B.\nnode B \x7b\nx string\n\x7d"

theorem Schema.ofText_layout_messy :
    stripped messyText = tidyText ∧ stripped tidyText = tidyText ∧
    Schema.ofText tidyText = .error ⟨4,.missingColon⟩ ∧
    SameOutcome [1,3,5,6,7] (.error ⟨4,.missingColon⟩) (Schema.ofText messyText) ∧
    outcome tidyText = outcome messyText := by
  have messy : stripped messyText = tidyText := by decide +kernel
  have tidy : stripped tidyText = tidyText := by decide +kernel
  have refused : Schema.ofText tidyText = .error ⟨4,.missingColon⟩ := by decide +kernel
  have numbers : keptNumbers messyText.toList = [1,3,5,6,7] := by decide +kernel
  obtain ⟨same,alike,_⟩ := Schema.ofText_layout messyText
  rw [numbers,messy,refused] at same
  exact ⟨messy,tidy,refused,same,alike tidyText (tidy.trans messy.symm)⟩

end NodeModel
