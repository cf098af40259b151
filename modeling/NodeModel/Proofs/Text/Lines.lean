import NodeModel.Proofs.Text.Pieces

/-! Lines of a text one by one: the first of them alone, texts put together from lines, and other
line ends. -/
namespace NodeModel.Text

variable {cs line rest : List Char}

theorem not_feed (free : '\n' ∉ cs) : ∀ c ∈ cs, (c == '\n') = false :=
  fun _ member => beq_eq_false_iff_ne.mpr fun same => free (same ▸ member)

theorem lines_of_free (free : '\n' ∉ cs) : lines cs = if cs.isEmpty then [] else [cs] := by
  rw [lines,pieces_free (not_feed free)]
  rfl

theorem lines_cut (free : '\n' ∉ line) (rest : List Char) :
    lines (line ++ '\n' :: rest) = dropReturn line :: lines rest := by
  have first : pieces (· == '\n') (line ++ '\n' :: rest) = [line] ++ pieces (· == '\n') rest :=
    pieces_append (not_feed free) rfl
  rw [lines,first,endedLines_append _ (pieces_ne_nil _ _)]
  rfl

/-- A text is taken apart line by line. -/
theorem line_induction {motive : List Char → Prop} (last : ∀ cs, '\n' ∉ cs → motive cs)
    (next : ∀ line rest, '\n' ∉ line → motive rest → motive (line ++ '\n' :: rest))
    (cs : List Char) : motive cs := by
  induction size : cs.length using Nat.strong_induction_on generalizing cs with
  | _ size ih =>
    cases cut : cutAt '\n' cs with
    | none => exact last cs (cutAt_eq_none_iff.mp cut)
    | some parts =>
      obtain ⟨free,rfl⟩ := cutAt_eq_some_iff.mp cut
      refine next _ _ free (ih _ ?_ _ rfl)
      simp only [List.length_append,List.length_cons] at size
      omega

theorem trim_dropReturn (line : List Char) : trim (dropReturn line) = trim line := by
  rw [dropReturn,stripLast]
  split
  next found =>
    have front : line.dropLast ++ ['\r'] = line := List.dropLast_append_getLast? '\r' found
    rw [Option.getD_some,← trim_append_blank (show isBlank '\r' = true from rfl),front]
  next => rfl

/-- A line feed at the end of a text ends its last line and starts none. -/
theorem lines_feed (cs : List Char) :
    (lines (cs ++ ['\n'])).map trim = (lines cs).map trim ∨
      (lines (cs ++ ['\n'])).map trim = (lines cs).map trim ++ [[]] := by
  induction cs using line_induction with
  | last cs free =>
    have ended : lines (cs ++ ['\n']) = [dropReturn cs] := lines_cut free []
    rw [ended,lines_of_free free]
    cases cs with
    | nil => exact .inr rfl
    | cons c cs => exact .inl (by simp [trim_dropReturn])
  | next line rest free ih =>
    rw [List.append_assoc,List.cons_append,lines_cut free,lines_cut free,List.map_cons,
      List.map_cons]
    exact ih.imp (congrArg _) (congrArg _)

def firstLines : Nat → List Char → List Char
  | 0, _ => []
  | count + 1, cs =>
    match cutAt '\n' cs with
    | none => cs
    | some (line, rest) => line ++ '\n' :: firstLines count rest

theorem firstLines_of_free (count : Nat) (free : '\n' ∉ cs) : firstLines (count + 1) cs = cs := by
  rw [firstLines,cutAt_eq_none_iff.mpr free]

theorem firstLines_cut (count : Nat) (free : '\n' ∉ line) (rest : List Char) :
    firstLines (count + 1) (line ++ '\n' :: rest) = line ++ '\n' :: firstLines count rest := by
  rw [firstLines,cutAt_eq_some_iff.mpr ⟨free,rfl⟩]

theorem lines_firstLines (count : Nat) (cs : List Char) :
    lines (firstLines count cs) = (lines cs).take count := by
  induction cs using line_induction generalizing count with
  | last cs free =>
    cases count with
    | zero => rfl
    | succ count =>
      rw [firstLines_of_free count free,lines_of_free free]
      split <;> simp
  | next line rest free ih =>
    cases count with
    | zero => rfl
    | succ count =>
      rw [firstLines_cut count free,lines_cut free,lines_cut free,ih,List.take_succ_cons]

/-- Lines that are followed by another one have ended. -/
theorem ended_firstLines (count : Nat) (cs : List Char) (more : count < (lines cs).length) :
    Ended (firstLines count cs) := by
  induction cs using line_induction generalizing count with
  | last cs free =>
    cases count with
    | zero => exact .inl rfl
    | succ count =>
      rw [lines_of_free free] at more
      split at more <;> simp at more
  | next line rest free ih =>
    cases count with
    | zero => exact .inl rfl
    | succ count =>
      rw [lines_cut free,List.length_cons] at more
      rw [firstLines_cut count free]
      refine .inr ?_
      rcases ih count (by omega) with none | last
      · simp [none]
      · simp [List.getLast?_cons,last]

/-- Lines that are not empty and hold no line end are read back from the text they make up. -/
theorem lines_intercalate {texts : List (List Char)} (free : ∀ text ∈ texts, '\n' ∉ text)
    (some : ∀ text ∈ texts, text ≠ []) (tight : ∀ text ∈ texts, Tight text) :
    lines (['\n'].intercalate texts) = texts := by
  induction texts with
  | nil => rfl
  | cons text texts ih =>
    obtain ⟨here,free⟩ := List.forall_mem_cons.mp free
    obtain ⟨filled,some⟩ := List.forall_mem_cons.mp some
    obtain ⟨ends,tight⟩ := List.forall_mem_cons.mp tight
    cases texts with
    | nil => simp [lines_of_free here,filled]
    | cons next texts =>
      have kept : dropReturn text = text := by
        rw [dropReturn,stripLast_eq_none]
        · rfl
        · rintro c found rfl
          exact absurd (ends.last _ found) (by decide)
      rw [List.intercalate_cons_cons,List.append_assoc,List.singleton_append,lines_cut here,kept,
        ih free some tight]

def withReturns (cs : List Char) : List Char :=
  cs.flatMap fun c => if c = '\n' then ['\r', '\n'] else [c]

theorem withReturns_of_free (free : '\n' ∉ cs) : withReturns cs = cs := by
  induction cs with
  | nil => rfl
  | cons c cs ih =>
    have other : c ≠ '\n' := fun same => free (same ▸ List.mem_cons_self)
    rw [withReturns,List.flatMap_cons,if_neg other]
    exact congrArg (c :: ·) (ih fun later => free (List.mem_cons_of_mem _ later))

theorem withReturns_append (cs rest : List Char) :
    withReturns (cs ++ rest) = withReturns cs ++ withReturns rest := List.flatMap_append

theorem lines_withReturns (cs : List Char) :
    (lines (withReturns cs)).map trim = (lines cs).map trim := by
  induction cs using line_induction with
  | last cs free => rw [withReturns_of_free free]
  | next line rest free ih =>
    have split : withReturns (line ++ '\n' :: rest) =
        (line ++ ['\r']) ++ '\n' :: withReturns rest := by
      rw [withReturns_append,withReturns_of_free free,List.append_assoc]
      rfl
    have free' : '\n' ∉ line ++ ['\r'] := by simpa using free
    rw [split,lines_cut free',lines_cut free,List.map_cons,List.map_cons,ih,trim_dropReturn,
      trim_dropReturn,trim_append_blank rfl]

end NodeModel.Text
