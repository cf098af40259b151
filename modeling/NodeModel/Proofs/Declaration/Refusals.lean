import NodeModel.Proofs.Declaration.Progress

/-! Refused texts. A problem is reported at the first line that cannot be right: what stands before
it can be completed, and nothing behind it changes the report. A node that is left open is reported
at its header. -/
namespace NodeModel

namespace Declaration

open Text

variable {cs : List Char} {texts before : List (List Char)} {text : List Char}
variable {state : State} {line : Line} {run : List Line} {found : LineProblem} {opened : OpenNode}

/-- A text is refused at a line, whatever follows. -/
theorem readLines_stops (shared : (lines cs).take (before.length + 1) = before ++ [text])
    (here : Line.of? (1 + before.length) text = some line)
    (passes : (significantFrom 1 before).foldlM State.step {} = .ok state)
    (stops : state.step line = .error found) : readLines cs = .error found := by
  have listed : lines cs = before ++ text :: (lines cs).drop (before.length + 1) := by
    rw [← List.take_append_drop (before.length + 1) (lines cs),shared]
    simp
  rw [readLines,significantLines_eq,listed,significantFrom_append,significantFrom_cons,here,
    List.foldlM_append,passes]
  change (((line :: _).foldlM State.step state : Except LineProblem State) >>= _) = _
  rw [List.foldlM_cons,stops]
  rfl

theorem readLines_outside (listed : significantLines cs = run)
    (passes : run.foldlM State.step {} = .ok state) (outside : state.opened = none) :
    readLines cs = .ok state.schema.tagged := by
  rw [readLines,listed,passes]
  change state.finish = _
  rw [State.finish,outside]

theorem readLines_inside (listed : significantLines cs = run)
    (passes : run.foldlM State.step {} = .ok state) (inside : state.opened = some opened) :
    readLines cs = .error ⟨opened.line,.unclosedNode opened.node.name⟩ := by
  rw [readLines,listed,passes]
  change state.finish = _
  rw [State.finish,inside]

/-- A closing brace completes a text with an open node. -/
theorem readLines_closed {number : Nat}
    (listed : significantLines cs = run ++ [⟨number,['\x7d']⟩])
    (passes : run.foldlM State.step {} = .ok state) (inside : state.opened = some opened) :
    ∃ schema, readLines cs = .ok schema := by
  have step : state.step ⟨number,['\x7d']⟩ = .ok (state.addNode opened.node) := by
    rw [State.step,inside]
    rfl
  have closed : (run ++ [Line.mk number ['\x7d']]).foldlM State.step {} =
      .ok (state.addNode opened.node) := by
    rw [List.foldlM_append,passes]
    exact congrArg (· >>= pure) step
  exact ⟨_,readLines_outside listed closed rfl⟩

/-- A closing brace on a line of its own. -/
theorem significantLines_brace (ended : Ended cs) : significantLines (cs ++ ['\x7d']) =
    significantLines cs ++ [⟨1 + (lines cs).length,['\x7d']⟩] := by
  have brace : lines ['\x7d'] = [['\x7d']] := rfl
  rw [significantLines_eq,lines_append ended,significantFrom_append,brace,significantFrom_cons]
  rfl

theorem significantLines_ended_feed (cs : List Char) :
    significantLines (cs ++ ['\n']) = significantLines cs := by
  obtain same | more := lines_feed cs
  · exact significantLines_congr same
  · rw [significantLines_eq,significantLines_eq,← significantFrom_trim,more,significantFrom_append,
      significantFrom_trim,significantFrom_cons]
    exact List.append_nil _

theorem significantLines_firstLines (count : Nat) (cs : List Char) :
    significantLines (firstLines count cs) = significantFrom 1 ((lines cs).take count) := by
  rw [significantLines_eq,lines_firstLines]

/-- If there is a problem, it is not that of a node left open. -/
inductive OfLine {α : Type} : Except Problem α → Prop where
  | ok (value : α) : OfLine (.ok value)
  | error {problem : Problem} (other : ∀ name, problem ≠ .unclosedNode name) :
      OfLine (.error problem)

theorem OfLine.bind {α β : Type} {result : Except Problem α} {next : α → Except Problem β}
    (first : OfLine result) (rest : ∀ value, OfLine (next value)) : OfLine (result >>= next) := by
  cases first with
  | ok value => exact rest value
  | error other => exact .error other

theorem ofLine_apply (policy : FieldPolicy) (mark : Attribute) : OfLine (mark.apply policy) := by
  unfold Attribute.apply
  split
  · exact .ok _
  · exact .ok _
  · split
    · exact .error (by simp)
    · exact .ok _

theorem ofLine_readAttributes (seen : List String) (policy : FieldPolicy)
    (tokens : List (List Char)) : OfLine (readAttributes seen policy tokens) := by
  induction tokens generalizing seen policy with
  | nil => exact .ok _
  | cons token tokens ih =>
    unfold readAttributes
    split
    · dsimp only
      split
      · exact .error (by simp)
      · split
        · exact .error (by simp)
        · exact (ofLine_apply ..).bind fun policy => ih _ policy
    · exact .error (by simp)

theorem ofLine_readKind (cs : List Char) : OfLine (readKind cs) := by
  unfold readKind
  split
  · exact .ok _
  · exact .ok _
  · exact .ok _
  · split
    all_goals
      split
      · exact .ok _
      · exact .error (by simp)

theorem ofLine_readField (text : List Char) (doc : Option String) :
    OfLine (readField text doc) := by
  unfold readField
  split
  · exact .error (by simp)
  · dsimp only
    split
    · exact .error (by simp)
    · split
      · exact .error (by simp)
      · exact (ofLine_readKind _).bind fun _ => (ofLine_readAttributes ..).bind fun _ => .ok _

theorem ofLine_readMangle (cs : List Char) : OfLine (readMangle cs) := by
  unfold readMangle
  split
  · split
    · exact .error (by simp)
    · split
      · split
        · exact .ok _
        · exact .error (by simp)
      · exact .error (by simp)
  · exact .error (by simp)

theorem ofLine_readIndicator (indicators : Indicators) (cs : List Char) :
    OfLine (readIndicator indicators cs) := by
  unfold readIndicator
  dsimp only
  split
  · exact .ok _
  · exact .ok _
  · exact (ofLine_readMangle _).bind fun _ => .ok _
  · exact .error (by simp)

theorem ofLine_readIndicators (fuel : Nat) (indicators : Indicators) (cs : List Char) :
    OfLine (readIndicators fuel indicators cs) := by
  induction fuel generalizing indicators cs with
  | zero => exact .ok _
  | succ fuel ih =>
    unfold readIndicators
    split
    · exact .ok _
    · exact (ofLine_readIndicator ..).bind fun _ => ih _ _
    · exact .error (by simp)

theorem ofLine_readNames (cs : List Char) : OfLine (readNames cs) := by
  unfold readNames
  dsimp only
  split
  · dsimp only
    split
    · exact .error (by simp)
    · split
      · exact .ok _
      · exact .error (by simp)
  · dsimp only
    split
    · exact .error (by simp)
    · exact .ok _

theorem ofLine_readClosing (cs : List Char) : OfLine (readClosing cs) := by
  unfold readClosing
  split
  · exact .ok _
  · exact .ok _
  · exact .error (by simp)

theorem ofLine_readHeader (header : List Char) (doc : Option String) :
    OfLine (readHeader header doc) := by
  unfold readHeader
  split
  · exact .error (by simp)
  · exact (ofLine_readClosing _).bind fun _ => (ofLine_readNames _).bind fun _ =>
      (ofLine_readIndicators ..).bind fun _ => .ok _

theorem ofLine_readInside (state : State) (opened : OpenNode) (text : List Char) :
    OfLine (state.readInside opened text) := by
  unfold State.readInside
  split
  · exact .ok _
  · split
    · exact .ok _
    · exact (ofLine_readField ..).bind fun _ => .ok _

theorem ofLine_readOutside (state : State) (number : Nat) (text : List Char) :
    OfLine (state.readOutside number text) := by
  unfold State.readOutside
  split
  · exact .ok _
  · dsimp only
    split
    · unfold State.readRoot
      split
      · exact .error (by simp)
      · split
        · exact .error (by simp)
        · exact .ok _
    · unfold State.readExternals
      split
      · exact .error (by simp)
      · split
        · exact .error (by simp)
        · exact .ok _
    · refine (ofLine_readHeader ..).bind fun header => ?_
      split <;> exact .ok _
    · exact .error (by simp)
    · exact .error (by simp)

theorem step_error_ofLine {state : State} {line : Line} {found : LineProblem}
    (refused : state.step line = .error found) (name : String) :
    found.problem ≠ .unclosedNode name := by
  obtain ⟨cause,read,rfl⟩ := mapError_eq_error_iff.mp refused
  have single : OfLine (.error cause : Except Problem State) := by
    rw [← read]
    split
    · exact ofLine_readInside _ _ _
    · exact ofLine_readOutside _ _ _
  cases single with
  | error other => exact other name

/-- Before the line that is refused the text is complete, or lacks a closing brace. -/
theorem firstLines_complete (count : Nat) (more : count < (lines cs).length)
    (passes : (significantFrom 1 ((lines cs).take count)).foldlM State.step {} = .ok state) :
    (∃ schema, readLines (firstLines count cs) = .ok schema) ∨
      ∃ schema, readLines (firstLines count cs ++ ['\x7d']) = .ok schema := by
  have listed := significantLines_firstLines count cs
  cases inside : state.opened with
  | none => exact .inl ⟨_,readLines_outside listed passes inside⟩
  | some opened =>
    have braced := significantLines_brace (ended_firstLines count cs more)
    rw [listed] at braced
    exact .inr (readLines_closed braced passes inside)

def leading (count : Nat) (source : String) : String :=
  String.ofList (firstLines count source.toList)

theorem ofText_leading (count : Nat) (source : String) :
    Schema.ofText (leading count source) = readLines (firstLines count source.toList) := by
  rw [Schema.ofText,leading,String.toList_ofList]

/-- A line is the header of the node that is opened last: it opens the node behind a complete text,
and up to every later line this node is the one that is open. -/
structure LastOpened (source : String) (number : Nat) (name : String) : Prop where
  complete : ∃ schema, Schema.ofText (leading (number - 1) source) = .ok schema
  header : ∃ line, (lines source.toList)[number - 1]? = some line ∧ OpensNode (trim line) name
  unclosed : ∀ count, number ≤ count →
    Schema.ofText (leading count source) = .error ⟨number, .unclosedNode name⟩

theorem lastOpened_of_run {source : String}
    (passes : (significantLines source.toList).foldlM State.step {} = .ok state)
    (inside : state.opened = some opened) :
    LastOpened source opened.line opened.node.name ∧
      1 ≤ opened.line ∧ opened.line ≤ (lines source.toList).length := by
  obtain ⟨passed,header,later,pending⟩ := pending_of_run passes inside
  obtain ⟨outside,_,_,earlier,quiet,_⟩ := pending.opening
  obtain ⟨before,text,after,listed,rfl,here,rfl⟩ := significantFrom_split pending.split
  obtain rfl := Line.of?_number here
  have number : opened.line = before.length + 1 := by
    rw [← pending.number,Nat.add_comm]
  rw [number]
  refine ⟨⟨?_,?_,?_⟩,?_,?_⟩
  · rw [ofText_leading,Nat.add_sub_cancel]
    refine ⟨_,readLines_outside (significantLines_firstLines _ _) ?_ quiet⟩
    rw [listed,List.take_left]
    exact earlier
  · refine ⟨text,?_,pending.opens⟩
    rw [listed,Nat.add_sub_cancel]
    simp
  · intro count behind
    obtain ⟨more,rfl⟩ := Nat.exists_eq_add_of_le behind
    have taken : (lines source.toList).take (before.length + 1 + more) =
        before ++ text :: after.take more := by
      rw [listed,Nat.add_right_comm,Nat.add_assoc,List.take_length_add_append,List.take_succ_cons]
    have upTo : significantLines (firstLines (before.length + 1 + more) source.toList) =
        significantFrom 1 before ++ ⟨1 + before.length,trim text⟩ ::
          significantFrom (1 + before.length + 1) (after.take more) := by
      rw [significantLines_firstLines,taken,significantFrom_append,significantFrom_cons,here]
      rfl
    have parts : significantFrom (1 + before.length + 1) after =
        significantFrom (1 + before.length + 1) (after.take more) ++
          significantFrom (1 + before.length + 1 + (after.take more).length) (after.drop more) := by
      rw [← significantFrom_append,List.take_append_drop]
    obtain ⟨middle,node,passes',inside',named⟩ := pending.stays parts passes
    rw [ofText_leading,readLines_inside upTo passes' inside',number,named]
  · omega
  · rw [listed]
    simp

end Declaration

open Declaration Text

/-- Problems are reported at the earliest line that is wrong. -/
theorem Schema.ofText_refused {source : String} {found : LineProblem}
    (refused : Schema.ofText source = .error found) :
    (1 ≤ found.line ∧ found.line ≤ (lines source.toList).length) ∧
    ((∀ name, found.problem ≠ .unclosedNode name) →
      Schema.ofText (leading found.line source) = .error found ∧
      (∀ other : String,
        (lines other.toList).take found.line = (lines source.toList).take found.line →
          Schema.ofText other = .error found) ∧
      ((∃ schema, Schema.ofText (leading (found.line - 1) source) = .ok schema) ∨
        ∃ schema, Schema.ofText (leading (found.line - 1) source ++ "\x7d") = .ok schema)) ∧
    ∀ name, found.problem = .unclosedNode name →
      LastOpened source found.line name ∧
        ∃ schema, Schema.ofText (source ++ "\n\x7d") = .ok schema := by
  obtain ⟨passed,line,later,middle,split,passes,stops⟩ | ⟨state,opened,passes,inside,rfl⟩ :=
    readLines_eq_error refused
  · obtain ⟨before,text,after,listed,rfl,here,rfl⟩ := significantFrom_split split
    have number : found.line = before.length + 1 := by
      rw [step_error_line stops,Line.of?_number here,Nat.add_comm]
    have size : (lines source.toList).length = before.length + 1 + after.length := by
      rw [listed,List.length_append,List.length_cons]
      omega
    have shared : (lines source.toList).take found.line = before ++ [text] := by
      rw [listed,number,List.take_length_add_append]
      rfl
    have everywhere (other : String)
        (same : (lines other.toList).take found.line = (lines source.toList).take found.line) :
        Schema.ofText other = .error found :=
      readLines_stops (number ▸ same.trans shared) here passes stops
    have complete : (significantFrom 1 ((lines source.toList).take before.length)).foldlM
        State.step {} = .ok middle := by
      rwa [listed,List.take_left]
    refine ⟨⟨by omega,by omega⟩,fun _ => ⟨everywhere _ ?_,everywhere,?_⟩,?_⟩
    · rw [leading,String.toList_ofList,lines_firstLines,List.take_take,Nat.min_self]
    · rw [number,Nat.add_sub_cancel,ofText_leading,Schema.ofText,String.toList_append,leading,
        String.toList_ofList]
      exact firstLines_complete _ (by omega) complete
    · exact fun name same => absurd same (step_error_ofLine stops name)
  · obtain ⟨last,first,bound⟩ := lastOpened_of_run passes inside
    refine ⟨⟨first,bound⟩,fun other => absurd rfl (other _),?_⟩
    rintro name ⟨⟩
    refine ⟨last,?_⟩
    have ended : Ended (source.toList ++ ['\n']) := .inr (by simp)
    have braced := significantLines_brace ended
    rw [significantLines_ended_feed] at braced
    obtain ⟨schema,read⟩ := readLines_closed braced passes inside
    refine ⟨schema,?_⟩
    rw [Schema.ofText,String.toList_append]
    rwa [List.append_assoc] at read

def unfinishedText : String := "node A \x7b\x7d\nnode B \x7b\n    // later\n    n: string\n"

def untypedText : String := unfinishedText ++ "    m:\n\x7d\n"

theorem Schema.ofText_refused_untyped :
    Schema.ofText untypedText = .error ⟨5,.missingType "m"⟩ ∧
    Schema.ofText (untypedText ++ "node C") = .error ⟨5,.missingType "m"⟩ ∧
    ((∃ schema, Schema.ofText (leading 4 untypedText) = .ok schema) ∨
      ∃ schema, Schema.ofText (leading 4 untypedText ++ "\x7d") = .ok schema) ∧
    Schema.ofText unfinishedText = .error ⟨2,.unclosedNode "B"⟩ ∧
    LastOpened unfinishedText 2 "B" ∧
    ∃ schema, Schema.ofText (unfinishedText ++ "\n\x7d") = .ok schema := by
  have untyped : Schema.ofText untypedText = .error ⟨5,.missingType "m"⟩ := by decide +kernel
  have unfinished : Schema.ofText unfinishedText = .error ⟨2,.unclosedNode "B"⟩ := by
    decide +kernel
  obtain ⟨_,wherever,complete⟩ := (Schema.ofText_refused untyped).2.1 (by simp)
  have closed := (Schema.ofText_refused unfinished).2.2 "B" rfl
  exact ⟨untyped,wherever (untypedText ++ "node C") (by decide +kernel),complete,unfinished,closed⟩

end NodeModel
