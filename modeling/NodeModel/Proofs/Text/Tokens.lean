import NodeModel.Proofs.Text.Pieces

/-! How a text is made up of parts and the blanks around them, said without the functions that take
it apart. -/
namespace NodeModel.Text

def Blanks (cs : List Char) : Prop := ∀ c ∈ cs, isBlank c = true

/-- `cs` is `core` with blanks before and behind it. -/
def Padded (core cs : List Char) : Prop :=
  ∃ before after, Blanks before ∧ Blanks after ∧ cs = before ++ core ++ after

/-- `cs` consists of `tokens` with blanks around them. No token holds a blank or is empty, and there
are blanks between any two. -/
inductive Spaced : List (List Char) → List Char → Prop where
  | nil {gap : List Char} (blanks : Blanks gap) : Spaced [] gap
  | cons {gap token rest : List Char} {tokens : List (List Char)} (blanks : Blanks gap)
      (some : token ≠ []) (solid : ∀ c ∈ token, isBlank c = false)
      (ends : ∀ c ∈ rest.head?, isBlank c = true) (more : Spaced tokens rest) :
      Spaced (token :: tokens) (gap ++ token ++ rest)

/-- `cs` without the one `mark` that it may end in. -/
def Unmarked (mark : Char) (cs rest : List Char) : Prop :=
  cs = rest ++ [mark] ∨ (cs = rest ∧ cs.getLast? ≠ some mark)

variable {cs core gap rest : List Char} {tokens : List (List Char)} {mark : Char}

theorem trim_append_blanks (blanks : Blanks gap) : trim (cs ++ gap) = trim cs := by
  induction gap using List.reverseRecOn with
  | nil => rw [List.append_nil]
  | append_singleton gap c ih =>
    have last : isBlank c = true := blanks c (by simp)
    rw [← List.append_assoc,trim_append_blank last]
    exact ih fun d member => blanks d (List.mem_append_left _ member)

theorem padded_trim (cs : List Char) : Padded (trim cs) cs := by
  have front : cs.takeWhile isBlank ++ trimStart cs = cs := List.takeWhile_append_dropWhile
  have back : trim cs ++ (trimStart cs).rtakeWhile isBlank = trimStart cs :=
    List.rdropWhile_append_rtakeWhile ..
  refine ⟨cs.takeWhile isBlank,(trimStart cs).rtakeWhile isBlank,?_,?_,?_⟩
  · exact fun c => List.mem_takeWhile_imp
  · exact fun c => List.mem_rtakeWhile_imp
  · rw [List.append_assoc,back,front]

/-- Without a blank in front, all blanks that are trimmed stand behind. -/
theorem first_of_append {front back : List Char}
    (first : ∀ c ∈ (front ++ back).head?, isBlank c = false) :
    ∀ c ∈ front.head?, isBlank c = false := by
  intro c found
  refine first c ?_
  rwa [List.head?_append_of_ne_nil _ (List.ne_nil_of_mem (List.mem_of_mem_head? found))]

theorem last_of_append {front back : List Char}
    (last : ∀ c ∈ (front ++ back).getLast?, isBlank c = false) :
    ∀ c ∈ back.getLast?, isBlank c = false := by
  intro c found
  refine last c ?_
  rwa [List.getLast?_append_of_ne_nil _ (List.ne_nil_of_mem (List.mem_of_mem_getLast? found))]

theorem exists_blanks_behind (first : ∀ c ∈ cs.head?, isBlank c = false) :
    ∃ gap, Blanks gap ∧ cs = trim cs ++ gap := by
  refine ⟨cs.rtakeWhile isBlank,fun c => List.mem_rtakeWhile_imp,?_⟩
  rw [trim,trimStart_of_first first]
  exact (List.rdropWhile_append_rtakeWhile ..).symm

theorem exists_blanks_before (last : ∀ c ∈ cs.getLast?, isBlank c = false) :
    ∃ gap, Blanks gap ∧ cs = gap ++ trim cs := by
  have front : cs.takeWhile isBlank ++ trimStart cs = cs := List.takeWhile_append_dropWhile
  have solid : ∀ c ∈ (trimStart cs).getLast?, isBlank c = false := by
    rw [← front] at last
    exact last_of_append last
  refine ⟨cs.takeWhile isBlank,fun c => List.mem_takeWhile_imp,?_⟩
  rw [trim,trimEnd_of_last solid,front]

theorem Padded.trim_eq (padded : Padded core cs) (tight : Tight core) : trim cs = core := by
  obtain ⟨before,after,blanks,blanks',rfl⟩ := padded
  rw [trim_append_blanks blanks',trim_append_of_blanks blanks,tight.trim_eq]

/-- What a text trims to is what it holds between blanks. -/
theorem trim_eq_iff (tight : Tight core) : trim cs = core ↔ Padded core cs :=
  ⟨fun same => same ▸ padded_trim cs,fun padded => padded.trim_eq tight⟩

theorem Blanks.not_mem (blanks : Blanks gap) (solid : isBlank mark = false) : mark ∉ gap := by
  intro inside
  simp [blanks mark inside] at solid

theorem Padded.not_mem (padded : Padded core cs) (solid : isBlank mark = false)
    (apart : mark ∉ core) : mark ∉ cs := by
  obtain ⟨before,after,blanks,blanks',rfl⟩ := padded
  simp [blanks.not_mem solid,blanks'.not_mem solid,apart]

theorem words_append_blanks (blanks : Blanks gap) : words (gap ++ cs) = words cs := by
  induction gap with
  | nil => rfl
  | cons c gap ih =>
    obtain ⟨first,later⟩ := List.forall_mem_cons.mp blanks
    rw [List.cons_append,words_cons_blank first,ih later]

theorem Spaced.words_eq (spaced : Spaced tokens cs) : words cs = tokens := by
  induction spaced with
  | @nil gap blanks =>
    have none : words (gap ++ []) = words [] := words_append_blanks blanks
    rwa [List.append_nil] at none
  | @cons gap token rest tokens blanks some solid ends more ih =>
    rw [List.append_assoc,words_append_blanks blanks]
    cases rest with
    | nil => rw [List.append_nil,words_single some solid,← ih]; rfl
    | cons c rest =>
      have blank : isBlank c = true := ends c rfl
      rw [words_append some solid blank,← ih,words_cons_blank blank]

theorem exists_spaced (cs : List Char) : ∃ tokens, Spaced tokens cs := by
  induction size : cs.length using Nat.strong_induction_on generalizing cs with
  | _ size ih =>
    -- The blanks in front, the run up to the next blank, and what is left.
    have front : cs.takeWhile isBlank ++ trimStart cs = cs := List.takeWhile_append_dropWhile
    have blanks : Blanks (cs.takeWhile isBlank) := fun c => List.mem_takeWhile_imp
    cases inner : trimStart cs with
    | nil =>
      rw [inner,List.append_nil] at front
      exact ⟨[],.nil (front ▸ blanks)⟩
    | cons c tail =>
      have solid : isBlank c = false := by
        have kept := List.head?_dropWhile_not isBlank cs
        rw [trimStart] at inner
        simpa [inner] using kept
      have parts : tail.takeWhile (!isBlank ·) ++ tail.dropWhile (!isBlank ·) = tail :=
        List.takeWhile_append_dropWhile
      have shorter : (tail.dropWhile (!isBlank ·)).length < cs.length := by
        have bound : (tail.dropWhile (!isBlank ·)).length ≤ tail.length :=
          (List.dropWhile_suffix _).length_le
        have whole := congrArg List.length front
        rw [List.length_append,inner,List.length_cons] at whole
        omega
      obtain ⟨tokens,more⟩ := ih _ (size ▸ shorter) _ rfl
      have run : ∀ d ∈ c :: tail.takeWhile (!isBlank ·), isBlank d = false := by
        refine List.forall_mem_cons.mpr ⟨solid,fun d member => ?_⟩
        simpa using List.mem_takeWhile_imp member
      have ends : ∀ d ∈ (tail.dropWhile (!isBlank ·)).head?, isBlank d = true := by
        intro d first
        have kept := List.head?_dropWhile_not (!isBlank ·) tail
        simpa [Option.mem_def.mp first] using kept
      have spaced := Spaced.cons blanks (List.cons_ne_nil _ _) run ends more
      rw [List.append_assoc,List.cons_append,parts,← inner,front] at spaced
      exact ⟨_,spaced⟩

/-- A text falls into the tokens that it consists of. -/
theorem words_eq_iff : words cs = tokens ↔ Spaced tokens cs := by
  refine ⟨?_,Spaced.words_eq⟩
  rintro rfl
  obtain ⟨tokens,spaced⟩ := exists_spaced cs
  rwa [spaced.words_eq]

theorem stripLast_eq_some_iff : stripLast mark cs = some rest ↔ cs = rest ++ [mark] := by
  constructor
  · intro found
    rw [stripLast] at found
    split at found
    next last =>
      cases found
      exact (List.dropLast_append_getLast? mark last).symm
    next => cases found
  · rintro rfl
    exact stripLast_append

theorem stripLast_eq_none_iff : stripLast mark cs = none ↔ cs.getLast? ≠ some mark := by
  simp [stripLast]

theorem stripLast_getD_eq_iff : (stripLast mark cs).getD cs = rest ↔ Unmarked mark cs rest := by
  unfold Unmarked
  rw [← stripLast_eq_some_iff,← stripLast_eq_none_iff]
  cases stripLast mark cs <;> simp

end NodeModel.Text
