import Mathlib.Data.Bool.AllAny
import Mathlib.Data.List.DropRight
import NodeModel.Text.Pieces

/-! Texts that are put together from parts come apart again into these parts: trimming, cutting,
words and lines. -/
namespace NodeModel.Text

variable {cs before after rest : List Char} {mark : Char} {isMark : Char → Bool}

/-- Neither the first nor the last character is blank. -/
structure Tight (cs : List Char) : Prop where
  first : ∀ c ∈ cs.head?, isBlank c = false
  last : ∀ c ∈ cs.getLast?, isBlank c = false

theorem Tight.of_ends
    (ends : (cs.head?.toList ++ cs.getLast?.toList).all (fun c => isBlank c = false) = true) :
    Tight cs := by
  have each := List.all_iff_forall_prop.mp ends
  exact ⟨fun c first => each c (List.mem_append_left _ (Option.mem_toList.mpr first)),
    fun c last => each c (List.mem_append_right _ (Option.mem_toList.mpr last))⟩

theorem trimStart_of_first (first : ∀ c ∈ cs.head?, isBlank c = false) : trimStart cs = cs := by
  cases cs with
  | nil => rfl
  | cons c cs => simp [trimStart,first c rfl]

theorem trimEnd_of_last (last : ∀ c ∈ cs.getLast?, isBlank c = false) : trimEnd cs = cs := by
  rw [trimEnd,trimStart_of_first (by simpa using last),List.reverse_reverse]

theorem Tight.trim_eq (tight : Tight cs) : trim cs = cs := by
  rw [trim,trimStart_of_first tight.first,trimEnd_of_last tight.last]

theorem tight_trim (cs : List Char) : Tight (trim cs) := by
  have start : ∀ c ∈ (trimStart cs).head?, isBlank c = false := by
    intro c found
    have kept := List.head?_dropWhile_not isBlank cs
    rw [trimStart] at found
    simpa [Option.mem_def.mp found] using kept
  constructor
  · intro c found
    obtain ⟨rest,split⟩ : trim cs <+: trimStart cs := List.rdropWhile_prefix isBlank _
    refine start c ?_
    rw [← split]
    cases parts : trim cs with
    | nil => simp [parts] at found
    | cons d ds => simpa [parts] using found
  · intro c found
    have kept := List.head?_dropWhile_not isBlank (trimStart cs).reverse
    rw [trim,trimEnd,List.getLast?_reverse,trimStart] at found
    simpa [Option.mem_def.mp found] using kept

theorem trim_eq_self_iff : trim cs = cs ↔ Tight cs :=
  ⟨fun same => same ▸ tight_trim cs,Tight.trim_eq⟩

theorem Tight.join {middle : List Char} (left : Tight before) (right : Tight after)
    (some : before ≠ []) (some' : after ≠ []) : Tight (before ++ middle ++ after) := by
  constructor
  · intro c found
    rw [List.append_assoc,List.head?_append_of_ne_nil _ some] at found
    exact left.first c found
  · intro c found
    rw [List.getLast?_append_of_ne_nil _ some'] at found
    exact right.last c found

theorem tight_of_free (free : ∀ c ∈ cs, isBlank c = false) : Tight cs :=
  ⟨fun c found => free c (List.mem_of_mem_head? found),
    fun c found => free c (List.mem_of_mem_getLast? found)⟩

theorem Tight.append_spaced (tight : Tight cs) (some : cs ≠ []) (parts : List (List Char))
    (each : ∀ part ∈ parts, part ≠ [] ∧ Tight part) : Tight (cs ++ parts.flatMap (' ' :: ·)) := by
  induction parts generalizing cs with
  | nil => simpa using tight
  | cons part parts ih =>
    obtain ⟨some',tight'⟩ := each part List.mem_cons_self
    have next : Tight (cs ++ [' '] ++ part) := tight.join tight' some some'
    simpa using ih next (by simp [some]) fun other member =>
      each other (List.mem_cons_of_mem _ member)

theorem trim_subset (cs : List Char) : trim cs ⊆ cs :=
  List.Subset.trans (List.rdropWhile_prefix isBlank _).subset (List.dropWhile_suffix isBlank).subset

theorem trim_cons_blank {c : Char} (blank : isBlank c = true) : trim (c :: cs) = trim cs := by
  simp [trim,trimStart,blank]

theorem trim_append_blank {c : Char} (blank : isBlank c = true) :
    trim (cs ++ [c]) = trim cs := by
  by_cases empty : ∀ d ∈ cs, isBlank d = true
  · simp [trim,trimStart,trimEnd,List.dropWhile_append_of_pos empty,blank,
      List.dropWhile_eq_nil_iff.mpr empty]
  · have more : trimStart (cs ++ [c]) = trimStart cs ++ [c] := by
      rw [trimStart,List.dropWhile_append,if_neg]
      · rfl
      · simpa [List.isEmpty_iff,List.dropWhile_eq_nil_iff] using empty
    rw [trim,more]
    simp [trim,trimEnd,trimStart,blank]

/-- Blanks before a text are trimmed away. -/
theorem trim_append_of_blanks (blanks : ∀ c ∈ before, isBlank c = true) :
    trim (before ++ cs) = trim cs := by
  rw [trim,trimStart,List.dropWhile_append_of_pos blanks]
  rfl

/-- A text that is not blank is not trimmed to nothing. -/
theorem trim_ne_nil {c : Char} (member : c ∈ cs) (solid : isBlank c = false) : trim cs ≠ [] := by
  intro empty
  have blanks : ∀ d ∈ trimStart cs, isBlank d = true := by
    simpa [trim,trimEnd,trimStart,List.dropWhile_eq_nil_iff] using empty
  rw [← List.takeWhile_append_dropWhile (p := isBlank) (l := cs),List.mem_append] at member
  rcases member with start | rest
  · exact absurd (List.mem_takeWhile_imp start) (by simp [solid])
  · exact absurd (blanks c rest) (by simp [solid])

theorem cutAt_eq_none_iff : cutAt mark cs = none ↔ mark ∉ cs := by
  induction cs with
  | nil => simp [cutAt]
  | cons c cs ih =>
    by_cases same : c = mark
    · simp [cutAt,same]
    · simp [cutAt,same,ih,Ne.symm same]

/-- A text is cut at the first mark in it. -/
theorem cutAt_eq_some_iff :
    cutAt mark cs = some (before,after) ↔ mark ∉ before ∧ cs = before ++ mark :: after := by
  induction cs generalizing before with
  | nil => simp [cutAt]
  | cons c cs ih =>
    by_cases same : c = mark
    · cases before with
      | nil => simp [cutAt,same]
      | cons d before =>
        simp only [cutAt,same,if_true,Option.some.injEq,Prod.mk.injEq,List.nil_eq,reduceCtorEq,
          false_and,List.mem_cons,not_or,List.cons_append,List.cons.injEq,false_iff]
        exact fun parts => parts.1.1 parts.2.1
    · simp only [cutAt,same,if_false,Option.map_eq_some_iff,Prod.exists,Prod.mk.injEq]
      constructor
      · rintro ⟨first,second,found,rfl,rfl⟩
        obtain ⟨free,rfl⟩ := ih.mp found
        exact ⟨by simp [free,Ne.symm same],rfl⟩
      · rintro ⟨free,split⟩
        cases before with
        | nil => exact absurd (List.cons.inj split).1 same
        | cons d before =>
          obtain ⟨rfl,rfl⟩ := List.cons.inj split
          simp only [List.mem_cons,not_or] at free
          exact ⟨before,after,ih.mpr ⟨free.2,rfl⟩,rfl,rfl⟩

theorem stripLast_append : stripLast mark (cs ++ [mark]) = some cs := by
  simp [stripLast]

theorem stripLast_eq_none (other : ∀ c ∈ cs.getLast?, c ≠ mark) : stripLast mark cs = none := by
  rw [stripLast,if_neg]
  exact fun found => other mark found rfl

theorem stripStart_append (start cs : List Char) : stripStart start (start ++ cs) = some cs := by
  induction start with
  | nil => rfl
  | cons c start ih => simp [stripStart,ih]

theorem takeWhile_until (free : mark ∉ cs) (rest : List Char) :
    (cs ++ mark :: rest).takeWhile (· != mark) = cs := by
  rw [List.takeWhile_append_of_pos,List.takeWhile_cons_of_neg,List.append_nil]
  · simp
  · intro c inside
    exact bne_iff_ne.mpr fun same => free (same ▸ inside)

theorem stripStart_eq_some {start : List Char} (found : stripStart start cs = some rest) :
    cs = start ++ rest := by
  induction start generalizing cs with
  | nil => exact Option.some.inj found
  | cons c start ih =>
    cases cs with
    | nil => simp [stripStart] at found
    | cons d cs =>
      rw [stripStart] at found
      split at found
      next same => rw [same,ih found,List.cons_append]
      next => simp at found

/-- Of two texts neither of which starts with the other, none starts with the other if it goes on. -/
theorem stripStart_of_apart {start : List Char} (apart : stripStart start cs = none)
    (apart' : stripStart cs start = none) (rest : List Char) :
    stripStart start (cs ++ rest) = none := by
  induction start generalizing cs with
  | nil => simp [stripStart] at apart
  | cons c start ih =>
    cases cs with
    | nil => simp [stripStart] at apart'
    | cons d cs =>
      rw [List.cons_append,stripStart]
      split
      next same =>
        subst same
        simp only [stripStart,if_true] at apart apart'
        exact ih apart apart'
      next => rfl

theorem stripStart_of_free {start : List Char} (mark : Char) (marked : mark ∈ start)
    (free : mark ∉ cs) : stripStart start cs = none := by
  cases found : stripStart start cs with
  | none => rfl
  | some rest =>
    rw [stripStart_eq_some found] at free
    exact absurd (List.mem_append_left rest marked) free

theorem pieces_ne_nil (isMark : Char → Bool) (cs : List Char) : pieces isMark cs ≠ [] := by
  cases cs with
  | nil => simp [pieces]
  | cons c cs =>
    rw [pieces]
    split
    · simp
    · split <;> simp

theorem pieces_cons_free {c : Char} (free : isMark c = false) {piece : List Char}
    {more : List (List Char)} (found : pieces isMark cs = piece :: more) :
    pieces isMark (c :: cs) = (c :: piece) :: more := by
  simp [pieces,free,found]

theorem pieces_free (free : ∀ c ∈ cs, isMark c = false) : pieces isMark cs = [cs] := by
  induction cs with
  | nil => rfl
  | cons c cs ih =>
    exact pieces_cons_free (free c List.mem_cons_self)
      (ih fun d member => free d (List.mem_cons_of_mem _ member))

theorem pieces_append (free : ∀ c ∈ cs, isMark c = false) (ends : isMark mark = true) :
    pieces isMark (cs ++ mark :: rest) = cs :: pieces isMark rest := by
  induction cs with
  | nil => simp [pieces,ends]
  | cons c cs ih =>
    exact pieces_cons_free (free c List.mem_cons_self)
      (ih fun d member => free d (List.mem_cons_of_mem _ member))

/-- A mark keeps the pieces before it apart from those behind it. -/
theorem pieces_join (ends : isMark mark = true) (cs rest : List Char) :
    pieces isMark (cs ++ mark :: rest) = pieces isMark cs ++ pieces isMark rest := by
  induction cs with
  | nil => simp [pieces,ends]
  | cons c cs ih =>
    by_cases isEnd : isMark c = true
    · simp [pieces,isEnd,ih]
    · obtain ⟨piece,more,found⟩ := List.exists_cons_of_ne_nil (pieces_ne_nil isMark cs)
      have free : isMark c = false := by simpa using isEnd
      rw [List.cons_append,pieces_cons_free free found]
      rw [found,List.cons_append] at ih
      exact pieces_cons_free free ih

/-- Pieces hold no marks. -/
theorem free_of_mem_pieces {piece : List Char} (member : piece ∈ pieces isMark cs) :
    ∀ c ∈ piece, isMark c = false := by
  induction cs generalizing piece with
  | nil =>
    simp only [pieces,List.mem_singleton] at member
    simp [member]
  | cons c cs ih =>
    rw [pieces] at member
    split at member
    next =>
      rcases List.mem_cons.mp member with rfl | later
      · simp
      · exact ih later
    next free =>
      split at member
      next none => exact absurd none (pieces_ne_nil _ _)
      next first more found =>
        rcases List.mem_cons.mp member with rfl | later
        · intro d inside
          rcases List.mem_cons.mp inside with rfl | inside
          · simpa using free
          · exact ih (found ▸ List.mem_cons_self) d inside
        · exact ih (found ▸ List.mem_cons_of_mem _ later)

theorem pieces_intercalate (parts : List (List Char)) (some : parts ≠ [])
    (free : ∀ part ∈ parts, ∀ c ∈ part, isMark c = false) (ends : isMark mark = true) :
    pieces isMark ([mark].intercalate parts) = parts := by
  induction parts with
  | nil => exact absurd rfl some
  | cons part parts ih =>
    cases parts with
    | nil => simpa using pieces_free (free part List.mem_cons_self)
    | cons next parts =>
      rw [List.intercalate_cons_cons,List.append_assoc,List.singleton_append,
        pieces_append (free part List.mem_cons_self) ends,
        ih (by simp) fun other member => free other (List.mem_cons_of_mem _ member)]

/-- The pieces make up the text. -/
theorem intercalate_pieces (mark : Char) (cs : List Char) :
    [mark].intercalate (pieces (· == mark) cs) = cs := by
  induction cs with
  | nil => rfl
  | cons c cs ih =>
    obtain ⟨piece,more,found⟩ := List.exists_cons_of_ne_nil (pieces_ne_nil (· == mark) cs)
    rw [found] at ih
    by_cases same : c = mark
    · simp [pieces,same,found,List.intercalate_cons_cons,ih]
    · rw [pieces_cons_free (by simpa using same) found]
      cases more <;> simpa [List.intercalate_cons_cons] using ih

theorem words_cons_blank (blank : isBlank mark = true) : words (mark :: cs) = words cs := by
  simp [words,pieces,blank]

/-- A run of characters that are not blank is one word, up to the next blank. -/
theorem words_append {word : List Char} (some : word ≠ []) (free : ∀ c ∈ word, isBlank c = false)
    (ends : isBlank mark = true) : words (word ++ mark :: rest) = word :: words rest := by
  simp [words,pieces_append free ends,some]

theorem words_single {word : List Char} (some : word ≠ []) (free : ∀ c ∈ word, isBlank c = false) :
    words word = [word] := by
  simp [words,pieces_free free,some]

/-- Words with a blank before each are told apart. -/
theorem words_spaced (parts : List (List Char)) (some : ∀ part ∈ parts, part ≠ [])
    (free : ∀ part ∈ parts, ∀ c ∈ part, isBlank c = false) :
    words (parts.flatMap (' ' :: ·)) = parts := by
  induction parts with
  | nil => rfl
  | cons part parts ih =>
    have first := some part List.mem_cons_self
    have plain := free part List.mem_cons_self
    have rest := ih (fun other member => some other (List.mem_cons_of_mem _ member))
      fun other member => free other (List.mem_cons_of_mem _ member)
    rw [List.flatMap_cons,List.cons_append,words_cons_blank rfl]
    cases parts with
    | nil => simpa using words_single first plain
    | cons next parts =>
      rw [List.flatMap_cons,List.cons_append,words_cons_blank rfl] at rest
      rw [List.flatMap_cons,List.cons_append,words_append first plain rfl,rest]

/-- Pieces before the last one count as ended. -/
theorem endedLines_append (ended : List (List Char)) {rest : List (List Char)} (some : rest ≠ []) :
    endedLines (ended ++ rest) = ended.map dropReturn ++ endedLines rest := by
  induction ended with
  | nil => rfl
  | cons line ended ih =>
    obtain ⟨next,later,parts⟩ := List.exists_cons_of_ne_nil
      (List.append_ne_nil_of_right_ne_nil ended some)
    rw [List.cons_append,parts,endedLines,← parts,ih,List.map_cons,List.cons_append]
    simp

/-- Lines are counted apart where one text ends in a line feed and another follows it. -/
def Ended (cs : List Char) : Prop := cs = [] ∨ cs.getLast? = some '\n'

theorem Ended.split (ended : Ended cs) (some : cs ≠ []) : ∃ front, cs = front ++ ['\n'] := by
  obtain ⟨front,last,rfl⟩ := (List.eq_nil_or_concat' cs).resolve_left some
  obtain rfl : last = '\n' := by simpa [Ended] using ended
  exact ⟨front,rfl⟩

theorem lines_append (ended : Ended cs) (rest : List Char) :
    lines (cs ++ rest) = lines cs ++ lines rest := by
  by_cases some : cs = []
  · subst some
    rfl
  · obtain ⟨front,rfl⟩ := ended.split some
    have parts (rest : List Char) : lines (front ++ '\n' :: rest) =
        (pieces (· == '\n') front).map dropReturn ++ lines rest := by
      rw [lines,pieces_join rfl,endedLines_append _ (pieces_ne_nil _ _),lines]
    rw [List.append_assoc,List.singleton_append,parts rest,parts []]
    simp [lines,pieces,endedLines]

theorem pieces_ended (texts : List (List Char)) (free : ∀ line ∈ texts, '\n' ∉ line) :
    pieces (· == '\n') (texts.flatMap (· ++ ['\n'])) = texts ++ [[]] := by
  induction texts with
  | nil => rfl
  | cons line texts ih =>
    have plain : ∀ c ∈ line, (c == '\n') = false := by
      intro c member
      simpa using fun same : c = '\n' => free line List.mem_cons_self (same ▸ member)
    rw [List.flatMap_cons,List.append_assoc,List.singleton_append,pieces_append plain rfl,
      ih fun other member => free other (List.mem_cons_of_mem _ member),List.cons_append]

/-- Lines that are each ended by a line feed are read back. -/
theorem lines_ended (texts : List (List Char)) (free : ∀ line ∈ texts, '\n' ∉ line)
    (noReturn : ∀ line ∈ texts, ∀ c ∈ line.getLast?, c ≠ '\r') :
    lines (texts.flatMap (· ++ ['\n'])) = texts := by
  have last : endedLines [[]] = [] := rfl
  rw [lines,pieces_ended texts free,endedLines_append _ (by simp),last,List.append_nil]
  refine (List.map_congr_left fun line member => ?_).trans (List.map_id texts)
  rw [dropReturn,stripLast_eq_none (noReturn line member)]
  rfl

theorem mem_endedLines {line : List Char} {parts : List (List Char)}
    (member : line ∈ endedLines parts) : ∃ part ∈ parts, line = part ∨ line = dropReturn part := by
  induction parts with
  | nil => simp [endedLines] at member
  | cons part parts ih =>
    cases parts with
    | nil =>
      rw [endedLines] at member
      split at member
      · simp at member
      · exact ⟨part,List.mem_cons_self,.inl (List.mem_singleton.mp member)⟩
    | cons next parts =>
      rcases List.mem_cons.mp member with rfl | later
      · exact ⟨part,List.mem_cons_self,.inr rfl⟩
      · obtain ⟨other,inside,same⟩ := ih later
        exact ⟨other,List.mem_cons_of_mem _ inside,same⟩

theorem dropReturn_subset (line : List Char) : dropReturn line ⊆ line := by
  rw [dropReturn,stripLast]
  split
  · exact (List.dropLast_prefix line).subset
  · exact List.Subset.refl line

theorem lineFeed_not_mem {line : List Char} (member : line ∈ lines cs) : '\n' ∉ line := by
  intro inside
  obtain ⟨part,found,same⟩ := mem_endedLines member
  have inPart : '\n' ∈ part := by
    rcases same with rfl | rfl
    · exact inside
    · exact dropReturn_subset part inside
  simpa using free_of_mem_pieces found '\n' inPart

theorem isWordChar_of_start {c : Char} (start : isWordStart c = true) : isWordChar c = true := by
  rw [isWordStart,Bool.or_eq_true] at start
  rw [isWordChar,Char.isAlphanum]
  rcases start with letter | underscore
  · simp [letter]
  · simp [underscore]

theorem ascii_of_wordChar {c : Char} (word : isWordChar c = true) : c.toNat < 0x80 := by
  delta isWordChar Char.isAlphanum Char.isAlpha Char.isUpper Char.isLower Char.isDigit at word
  simp only [Bool.or_eq_true,Bool.and_eq_true,decide_eq_true_eq,beq_iff_eq,
    UInt32.le_iff_toNat_le,ge_iff_le] at word
  change (((65 ≤ c.toNat ∧ c.toNat ≤ 90) ∨ (97 ≤ c.toNat ∧ c.toNat ≤ 122)) ∨
    (48 ≤ c.toNat ∧ c.toNat ≤ 57)) ∨ c = '_' at word
  rcases word with code | rfl
  · omega
  · decide

/-- What holds of each character of a word can be checked code by code. -/
theorem forall_wordChar {P : Char → Prop}
    (each : ∀ code < 0x80, isWordChar (Char.ofNat code) = true → P (Char.ofNat code)) {c : Char}
    (word : isWordChar c = true) : P c := by
  have here := each c.toNat (ascii_of_wordChar word)
  rw [Char.ofNat_toNat] at here
  exact here word

theorem not_blank_of_wordChar {c : Char} (word : isWordChar c = true) : isBlank c = false :=
  forall_wordChar (P := fun c => isBlank c = false) (by decide +kernel) word

structure Name (cs : List Char) : Prop where
  ne_nil : cs ≠ []
  wordChars : ∀ c ∈ cs, isWordChar c = true

theorem Name.of_isIdentifier (name : isIdentifier cs = true) : Name cs := by
  cases cs with
  | nil => simp [isIdentifier] at name
  | cons c cs =>
    simp only [isIdentifier,Bool.and_eq_true,List.all_eq_true] at name
    exact ⟨by simp,List.forall_mem_cons.mpr ⟨isWordChar_of_start name.1,name.2⟩⟩

theorem Name.not_blank (name : Name cs) : ∀ c ∈ cs, isBlank c = false :=
  fun c member => not_blank_of_wordChar (name.wordChars c member)

theorem Name.tight (name : Name cs) : Tight cs := tight_of_free name.not_blank

theorem Name.free (name : Name cs) (other : isWordChar mark = false) : mark ∉ cs := by
  intro member
  simp [name.wordChars mark member] at other

theorem Name.unmarked (name : Name cs) (other : isWordChar mark = false) :
    ∀ c ∈ cs, (c == mark) = false :=
  fun _ member => beq_eq_false_iff_ne.mpr fun same => name.free other (same ▸ member)

theorem pieces_names {name : List Char} {names : List (List Char)}
    (each : ∀ other ∈ name :: names, Name other) :
    pieces (· == ',') (", ".toList.intercalate (name :: names)) =
      name :: names.map (' ' :: ·) := by
  have free := (each name List.mem_cons_self).unmarked (show isWordChar ',' = false from rfl)
  induction names generalizing name with
  | nil => simpa using pieces_free free
  | cons next names ih =>
    have later := fun other member => each other (List.mem_cons_of_mem _ member)
    have rest : pieces (· == ',') (' ' :: ", ".toList.intercalate (next :: names)) =
        (' ' :: next) :: names.map (' ' :: ·) :=
      pieces_cons_free rfl (ih later ((later next List.mem_cons_self).unmarked rfl))
    have split : ", ".toList.intercalate (name :: next :: names) =
        name ++ ',' :: ' ' :: ", ".toList.intercalate (next :: names) := by
      simp [List.intercalate_cons_cons]
    rw [split,pieces_append free rfl,rest,List.map_cons]

/-- A list of names is read back from the names with commas between them. -/
theorem commaList_names {names : List (List Char)} (some : names ≠ [])
    (each : ∀ name ∈ names, Name name) : commaList (", ".toList.intercalate names) = names := by
  cases names with
  | nil => exact absurd rfl some
  | cons name names =>
    have first := each name List.mem_cons_self
    obtain ⟨c,member⟩ := List.exists_mem_of_ne_nil name first.ne_nil
    have inside : c ∈ ", ".toList.intercalate (name :: names) := by
      cases names with
      | nil => simpa using member
      | cons => simp [List.intercalate_cons_cons,member]
    have trimmed : names.map (trim ∘ (' ' :: ·)) = names :=
      (List.map_congr_left fun other later => (trim_cons_blank rfl).trans
        (each other (List.mem_cons_of_mem _ later)).tight.trim_eq).trans (List.map_id _)
    rw [commaList,if_neg (by simpa using trim_ne_nil inside (first.not_blank c member)),
      pieces_names each,List.map_cons,List.map_map,first.tight.trim_eq,trimmed]

end NodeModel.Text
