import NodeModel.Proofs.Declaration.HeaderLine
import NodeModel.Proofs.Text.Tokens

/-! The grammar of node headers. A header is accepted exactly if it belongs to the grammar, and the
loop over its indicators comes to an end on every text. -/
namespace NodeModel.Declaration

open Text

inductive NamesText : String → Option String → List Char → Prop where
  | alone {name : String} (named : IsName name) : NamesText name none name.toList
  | extending {name superclass : String} {gap gap' : List Char} (named : IsName name)
      (named' : IsName superclass) (blanks : Blanks gap) (blanks' : Blanks gap') :
      NamesText name (some superclass) (name.toList ++ gap ++ ':' :: (gap' ++ superclass.toList))

/-- What follows the word of an indicator: for a pair its two names in parentheses, and nothing for
the others. -/
inductive Operands : Indicator → List Char → Prop where
  | generic : Operands .generic []
  | unique : Operands .unique []
  | mangle {pair : ManglePair} {left right : List Char} (named : IsName pair.nameField)
      (named' : IsName pair.flagField) (padded : Padded pair.nameField.toList left)
      (padded' : Padded pair.flagField.toList right) :
      Operands (.mangle pair) ('(' :: (left ++ ',' :: (right ++ [')'])))

/-- Indicators one after the other, with or without blanks between them. The word of each ends at
the first character that cannot be part of a word. -/
inductive ItemsText : List Indicator → List Char → Prop where
  | nil : ItemsText [] []
  | cons {item : Indicator} {items : List Indicator} {gap operands rest : List Char}
      (blanks : Blanks gap) (given : Operands item operands)
      (ends : ∀ c ∈ (operands ++ rest).head?, isWordChar c = false) (more : ItemsText items rest) :
      ItemsText (item :: items) (gap ++ '#' :: (item.word.toList ++ (operands ++ rest)))

structure HeaderParts where
  name : String
  superclass : Option String
  items : List Indicator
  closed : Bool

def Indicator.pair? : Indicator → Option ManglePair
  | .mangle pair => some pair
  | _ => none

namespace HeaderParts

/-- A text of a header: names and indicators, the first opening brace, and perhaps the closing
one. -/
def Spells (parts : HeaderParts) (text : List Char) : Prop :=
  ∃ before after names items, text = before ++ '\x7b' :: after ∧ '\x7b' ∉ before ∧
    Padded (if parts.closed then ['\x7d'] else []) after ∧
    NamesText parts.name parts.superclass names ∧ ItemsText parts.items items ∧
    Padded (names ++ items) before

/-- Of several pairs the last one counts. -/
structure Declares (parts : HeaderParts) (doc : Option String) (header : Header) : Prop where
  name : header.node.name = parts.name
  superclass : header.node.superclass = parts.superclass
  fields : header.node.fields = []
  doc : header.node.doc = doc
  closed : header.closed = parts.closed
  generic : header.node.indicators.generic = true ↔ .generic ∈ parts.items
  unique : header.node.indicators.unique = true ↔ .unique ∈ parts.items
  mangle : header.node.indicators.mangle = (parts.items.filterMap Indicator.pair?).getLast?

end HeaderParts

/-- The loop over the indicators of a header, turn by turn and without a bound on their number. -/
inductive Loops : Indicators → List Char → Except Problem Indicators → Prop where
  | done {indicators : Indicators} {cs : List Char} (empty : trimStart cs = []) :
      Loops indicators cs (.ok indicators)
  | stray {indicators : Indicators} {cs rest : List Char} {c : Char}
      (found : trimStart cs = c :: rest) (other : c ≠ '#') :
      Loops indicators cs (.error (.strayHeaderText (String.ofList (c :: rest))))
  | fault {indicators : Indicators} {cs rest : List Char} {problem : Problem}
      (found : trimStart cs = '#' :: rest) (read : readIndicator indicators rest = .error problem) :
      Loops indicators cs (.error problem)
  | turn {indicators next : Indicators} {cs rest after : List Char}
      {result : Except Problem Indicators} (found : trimStart cs = '#' :: rest)
      (read : readIndicator indicators rest = .ok (next,after)) (more : Loops next after result) :
      Loops indicators cs result

structure FollowsHeaders (read : List Char → Option String → Except Problem Header) : Prop where
  accepts : ∀ text doc, (∃ header, read text doc = .ok header) ↔
    ∃ parts, HeaderParts.Spells parts text
  declares : ∀ text doc parts header, HeaderParts.Spells parts text →
    read text doc = .ok header → parts.Declares doc header

variable {cs rest gap : List Char} {indicators next : Indicators} {pair : ManglePair}

theorem commaList_pair {left right name flag : List Char} (named : Name name) (named' : Name flag)
    (padded : Padded name left) (padded' : Padded flag right) :
    commaList (left ++ ',' :: right) = [name,flag] := by
  have free := padded.not_mem rfl (named.free (show isWordChar ',' = false from rfl))
  have free' := padded'.not_mem rfl (named'.free (show isWordChar ',' = false from rfl))
  have some : (trim (left ++ ',' :: right)).isEmpty = false := by
    simpa using trim_ne_nil (show ',' ∈ left ++ ',' :: right by simp) rfl
  rw [commaList,if_neg (by simp [some]),pieces_append _ rfl,pieces_free]
  · simp [padded.trim_eq named.tight,padded'.trim_eq named'.tight]
  · exact fun c inside => beq_eq_false_iff_ne.mpr fun same => free' (same ▸ inside)
  · exact fun c inside => beq_eq_false_iff_ne.mpr fun same => free (same ▸ inside)

/-- Two names with a comma between them, each with blanks around it. -/
theorem padded_of_commaList {name flag : List Char} (found : commaList cs = [name,flag]) :
    ∃ left right, Padded name left ∧ Padded flag right ∧ cs = left ++ ',' :: right := by
  rw [commaList] at found
  split at found
  next => cases found
  next =>
    obtain ⟨left,others,parts,rfl,later⟩ := List.map_eq_cons_iff.mp found
    obtain ⟨right,none,rfl,rfl,last⟩ := List.map_eq_cons_iff.mp later
    obtain rfl := List.map_eq_nil_iff.mp last
    refine ⟨left,right,padded_trim left,padded_trim right,?_⟩
    rw [← intercalate_pieces ',' cs,parts]
    simp [List.intercalate_cons_cons]

theorem operands_of_readMangle (read : readMangle cs = .ok (pair,rest)) :
    ∃ operands, Operands (.mangle pair) operands ∧ cs = operands ++ rest := by
  obtain ⟨named,named'⟩ := readMangle_named read
  unfold readMangle at read
  split at read
  next inside =>
    split at read
    next => cases read
    next inner after cut =>
      obtain ⟨_,rfl⟩ := cutAt_eq_some_iff.mp cut
      split at read
      next name flag listed =>
        split at read
        next =>
          cases read
          obtain ⟨left,right,padded,padded',rfl⟩ := padded_of_commaList listed
          refine ⟨'(' :: (left ++ ',' :: (right ++ [')'])),.mangle named named' ?_ ?_,by simp⟩
          · simpa using padded
          · simpa using padded'
        next => cases read
      next => cases read
  next => cases read

theorem readMangle_of_operands {operands : List Char} (given : Operands (.mangle pair) operands) :
    readMangle (operands ++ rest) = .ok (pair,rest) := by
  cases given with
  | @mangle _ left right named named' padded padded' =>
    have free : ')' ∉ left ++ ',' :: right := by
      have apart := padded.not_mem rfl (named.name.free (show isWordChar ')' = false from rfl))
      have apart' := padded'.not_mem rfl (named'.name.free (show isWordChar ')' = false from rfl))
      simp [apart,apart']
    have cut : cutAt ')' (left ++ ',' :: (right ++ ')' :: rest)) =
        some (left ++ ',' :: right,rest) := cutAt_eq_some_iff.mpr ⟨free,by simp⟩
    have names : isIdentifier pair.nameField.toList = true ∧
      isIdentifier pair.flagField.toList = true := ⟨named,named'⟩
    simp [readMangle,cut,commaList_pair named.name named'.name padded padded',names]

theorem readIndicator_of_operands {item : Indicator} {operands : List Char}
    (given : Operands item operands)
    (ends : ∀ c ∈ (operands ++ rest).head?, isWordChar c = false) :
    readIndicator indicators (item.word.toList ++ (operands ++ rest)) =
      .ok (item.apply indicators,rest) := by
  obtain ⟨taken,left⟩ := span_word item.word_chars ends
  simp only [readIndicator,taken,left,String.ofList_toList]
  cases item with
  | generic => cases given; rfl
  | unique => cases given; rfl
  | mangle pair =>
    simp only [Indicator.word,readMangle_of_operands given]
    rfl

theorem operands_of_readIndicator (read : readIndicator indicators cs = .ok (next,rest)) :
    ∃ item operands, Operands item operands ∧ next = item.apply indicators ∧
      cs = item.word.toList ++ (operands ++ rest) ∧
      ∀ c ∈ (operands ++ rest).head?, isWordChar c = false := by
  have spelled (item : Indicator) (word : String.ofList (cs.takeWhile isWordChar) = item.word) :
      cs = item.word.toList ++ cs.dropWhile isWordChar := by
    rw [← word,String.toList_ofList]
    exact List.takeWhile_append_dropWhile.symm
  have ends : ∀ c ∈ (cs.dropWhile isWordChar).head?, isWordChar c = false := by
    intro c first
    have kept := List.head?_dropWhile_not isWordChar cs
    simpa [Option.mem_def.mp first] using kept
  unfold readIndicator at read
  simp only at read
  split at read
  next word =>
    cases read
    exact ⟨.generic,[],.generic,rfl,spelled .generic word,ends⟩
  next word =>
    cases read
    exact ⟨.unique,[],.unique,rfl,spelled .unique word,ends⟩
  next word =>
    obtain ⟨⟨pair,after⟩,inner,read⟩ := bind_eq_ok_iff.mp read
    cases read
    obtain ⟨operands,given,same⟩ := operands_of_readMangle inner
    rw [same] at ends
    refine ⟨.mangle pair,operands,given,rfl,?_,ends⟩
    rw [← same]
    exact spelled (.mangle pair) word
  next => cases read

theorem readIndicator_length (read : readIndicator indicators cs = .ok (next,rest)) :
    rest.length ≤ cs.length := by
  obtain ⟨item,operands,_,_,rfl,_⟩ := operands_of_readIndicator read
  simp only [List.length_append]
  omega

theorem trimStart_length (cs : List Char) : (trimStart cs).length ≤ cs.length :=
  (List.dropWhile_suffix isBlank).length_le

/-- With more turns than the text has characters, the loop is run to its end. -/
theorem loops_readIndicators (fuel : Nat) (indicators : Indicators) (cs : List Char)
    (enough : cs.length < fuel) : Loops indicators cs (readIndicators fuel indicators cs) := by
  induction fuel generalizing indicators cs with
  | zero => omega
  | succ fuel ih =>
    have bound := trimStart_length cs
    unfold readIndicators
    split
    next empty => exact .done empty
    next rest found =>
      cases read : readIndicator indicators rest with
      | error problem => exact .fault found read
      | ok result =>
        have shorter := readIndicator_length read
        rw [found,List.length_cons] at bound
        exact .turn found read (ih result.1 result.2 (by omega))
    next rest other some =>
      cases shape : trimStart cs with
      | nil => exact absurd shape other
      | cons c tail => exact .stray shape fun same => some tail (same ▸ shape)

/-- What the loop comes to does not depend on how many more turns it is given. -/
theorem Loops.readIndicators_eq {result : Except Problem Indicators}
    (loops : Loops indicators cs result) {fuel : Nat} (enough : cs.length < fuel) :
    readIndicators fuel indicators cs = result := by
  induction fuel generalizing indicators cs with
  | zero => omega
  | succ fuel ih =>
    have bound := trimStart_length cs
    cases loops with
    | done empty => simp only [readIndicators,empty]
    | stray found other =>
      simp only [readIndicators,found]
      split
      next none => cases none
      next mark => exact absurd (List.cons.inj mark).1 other
      next => rfl
    | fault found read =>
      simp only [readIndicators,found,read]
      rfl
    | @turn _ next _ rest after _ found read more =>
      have shorter := readIndicator_length read
      rw [found,List.length_cons] at bound
      have enough' : (next,after).2.length < fuel := by
        simp only
        omega
      simp only [readIndicators,found,read]
      exact ih more enough'

/-- The loop ends on every text, and its result is that of the reader. -/
theorem loops_iff {result : Except Problem Indicators} {fuel : Nat} (enough : cs.length < fuel) :
    Loops indicators cs result ↔ readIndicators fuel indicators cs = result := by
  refine ⟨fun loops => loops.readIndicators_eq enough,?_⟩
  rintro rfl
  exact loops_readIndicators fuel indicators cs enough

theorem trimStart_append (blanks : Blanks gap) {c : Char} (solid : isBlank c = false) :
    trimStart (gap ++ c :: cs) = c :: cs := by
  rw [trimStart,List.dropWhile_append_of_pos blanks,List.dropWhile_cons_of_neg (by simp [solid])]

/-- Blanks in front are skipped. -/
theorem Loops.behind_blanks {result : Except Problem Indicators}
    (loops : Loops indicators cs result) (blanks : Blanks gap) :
    Loops indicators (gap ++ cs) result := by
  have same : trimStart (gap ++ cs) = trimStart cs := List.dropWhile_append_of_pos blanks
  cases loops with
  | done empty => exact .done (same.trans empty)
  | stray found other => exact .stray (same.trans found) other
  | fault found read => exact .fault (same.trans found) read
  | turn found read more => exact .turn (same.trans found) read more

theorem loops_of_items {items : List Indicator} (text : ItemsText items cs)
    (indicators : Indicators) :
    Loops indicators cs (.ok (items.foldl Indicator.apply indicators)) := by
  induction text generalizing indicators with
  | nil => exact .done rfl
  | cons blanks given ends more ih =>
    exact .turn (trimStart_append blanks rfl) (readIndicator_of_operands given ends) (ih _)

/-- The texts on which the loop succeeds, up to blanks at their end. -/
theorem items_of_loops {result : Except Problem Indicators} (loops : Loops indicators cs result)
    (ok : result = .ok next) (last : ∀ c ∈ cs.getLast?, isBlank c = false) :
    ∃ items, ItemsText items cs ∧ next = items.foldl Indicator.apply indicators := by
  induction loops with
  | @done indicators cs empty =>
    cases ok
    have blanks : Blanks cs := List.dropWhile_eq_nil_iff.mp empty
    have none : cs = [] := by
      by_contra some
      have inside := List.getLast_mem some
      have solid := last _ (List.getLast?_eq_some_getLast some)
      simp [blanks _ inside] at solid
    exact ⟨[],none ▸ .nil,rfl⟩
  | stray => cases ok
  | fault => cases ok
  | @turn indicators next cs rest after result found read more ih =>
    have front : cs.takeWhile isBlank ++ trimStart cs = cs := List.takeWhile_append_dropWhile
    obtain ⟨item,operands,given,rfl,rfl,ends⟩ := operands_of_readIndicator read
    rw [found] at front
    have whole : cs = (cs.takeWhile isBlank ++ '#' :: (item.word.toList ++ operands)) ++ after := by
      simpa using front.symm
    rw [whole] at last
    obtain ⟨items,text,rfl⟩ := ih ok (last_of_append last)
    refine ⟨item :: items,?_,rfl⟩
    rw [← front]
    exact .cons (fun c => List.mem_takeWhile_imp) given ends text

/-- What indicators add up to. -/
theorem foldl_apply (items : List Indicator) (indicators : Indicators) :
    ((items.foldl Indicator.apply indicators).generic = true ↔
      indicators.generic = true ∨ .generic ∈ items) ∧
    ((items.foldl Indicator.apply indicators).unique = true ↔
      indicators.unique = true ∨ .unique ∈ items) ∧
    (items.foldl Indicator.apply indicators).mangle =
      (items.filterMap Indicator.pair?).getLast?.or indicators.mangle := by
  induction items generalizing indicators with
  | nil => simp
  | cons item items ih =>
    obtain ⟨generic,unique,mangle⟩ := ih (item.apply indicators)
    rw [List.foldl_cons,generic,unique,mangle]
    cases item with
    | generic => simp [Indicator.apply,Indicator.pair?]
    | unique => simp [Indicator.apply,Indicator.pair?]
    | mangle pair =>
      refine ⟨by simp [Indicator.apply],by simp [Indicator.apply],?_⟩
      simp [Indicator.apply,Indicator.pair?,List.getLast?_cons]

theorem readNames_of_text {name : String} {superclass : Option String}
    (text : NamesText name superclass cs) : readNames cs = .ok (name,superclass) := by
  cases text with
  | alone named =>
    have whole : cutAt ':' name.toList = none := cutAt_eq_none_iff.mpr (named.name.free rfl)
    have identifier : isIdentifier name.toList = true := named
    simp [readNames,whole,identifier]
  | @extending parent gap gap' named named' blanks blanks' =>
    have identifier : isIdentifier name.toList = true := named
    have identifier' : isIdentifier parent.toList = true := named'
    have free : ':' ∉ name.toList ++ gap := by
      simpa using ⟨named.name.free rfl,blanks.not_mem rfl⟩
    have cut : cutAt ':' (name.toList ++ gap ++ ':' :: (gap' ++ parent.toList)) =
        some (name.toList ++ gap,gap' ++ parent.toList) := cutAt_eq_some_iff.mpr ⟨free,rfl⟩
    have before : trim (name.toList ++ gap) = name.toList :=
      (trim_append_blanks blanks).trans named.name.tight.trim_eq
    have after : trim (gap' ++ parent.toList) = parent.toList :=
      (trim_append_of_blanks blanks').trans named'.name.tight.trim_eq
    simp only [readNames,cut,before,after,identifier,identifier',String.ofList_toList]
    rfl

theorem names_of_readNames {name : String} {superclass : Option String} (tight : Tight cs)
    (read : readNames cs = .ok (name,superclass)) : NamesText name superclass cs := by
  obtain ⟨named,named'⟩ := readNames_named read
  cases cut : cutAt ':' cs with
  | none =>
    simp only [readNames,cut] at read
    split at read
    next => cases read
    next =>
      cases read
      simpa using NamesText.alone named
  | some parts =>
    obtain ⟨before,after⟩ := parts
    obtain ⟨_,rfl⟩ := cutAt_eq_some_iff.mp cut
    simp only [readNames,cut] at read
    split at read
    next => cases read
    next =>
      split at read
      next =>
        cases read
        obtain ⟨gap,blanks,front⟩ := exists_blanks_behind (first_of_append tight.first)
        rw [List.append_cons] at tight
        obtain ⟨gap',blanks',back⟩ := exists_blanks_before (last_of_append tight.last)
        have text := NamesText.extending named (named' _ rfl) blanks blanks'
        rwa [String.toList_ofList,String.toList_ofList,← front,← back] at text
      next => cases read

namespace NamesText

variable {name : String} {superclass : Option String}

theorem ne_nil (text : NamesText name superclass cs) : cs ≠ [] := by
  cases text with
  | alone named => exact named.name.ne_nil
  | extending named => simp

theorem tight (text : NamesText name superclass cs) : Tight cs := by
  cases text with
  | alone named => exact named.name.tight
  | @extending parent gap gap' named named' blanks blanks' =>
    have joined : Tight (name.toList ++ (gap ++ ':' :: gap') ++ parent.toList) :=
      named.name.tight.join named'.name.tight named.name.ne_nil named'.name.ne_nil
    simpa using joined

theorem unmarked (text : NamesText name superclass cs) : '#' ∉ cs := by
  cases text with
  | alone named => exact named.name.free rfl
  | extending named named' blanks blanks' =>
    simpa using ⟨named.name.free rfl,blanks.not_mem rfl,blanks'.not_mem rfl,named'.name.free rfl⟩

end NamesText

/-- No indicator ends in a blank. -/
theorem Operands.last {item : Indicator} {operands : List Char} (given : Operands item operands) :
    ∃ front c, item.word.toList ++ operands = front ++ [c] ∧ isBlank c = false := by
  cases given with
  | generic => exact ⟨"generi".toList,'c',rfl,rfl⟩
  | unique => exact ⟨"uniqu".toList,'e',rfl,rfl⟩
  | @mangle pair left right =>
    exact ⟨(Indicator.mangle pair).word.toList ++ '(' :: (left ++ ',' :: right),')',by simp,rfl⟩

theorem ItemsText.last {items : List Indicator} (text : ItemsText items cs) :
    ∀ c ∈ cs.getLast?, isBlank c = false := by
  induction text with
  | nil => simp
  | @cons item items gap operands rest blanks given ends more ih =>
    intro c found
    by_cases none : rest = []
    · obtain ⟨front,final,shape,solid⟩ := given.last
      rw [none,List.append_nil,shape] at found
      have same : final = c := by simpa [List.getLast?_append,List.getLast?_cons] using found
      exact same ▸ solid
    · have whole : gap ++ '#' :: (item.word.toList ++ (operands ++ rest)) =
          (gap ++ '#' :: (item.word.toList ++ operands)) ++ rest := by simp
      rw [whole,List.getLast?_append_of_ne_nil _ none] at found
      exact ih c found

theorem NamesText.tight_append {name : String} {superclass : Option String}
    {items : List Indicator} (naming : NamesText name superclass cs) (listing : ItemsText items rest) :
    Tight (cs ++ rest) := by
  constructor
  · intro c found
    rw [List.head?_append_of_ne_nil _ naming.ne_nil] at found
    exact naming.tight.first c found
  · intro c found
    by_cases none : rest = []
    · rw [none,List.append_nil] at found
      exact naming.tight.last c found
    · rw [List.getLast?_append_of_ne_nil _ none] at found
      exact listing.last c found

/-- Indicators begin with their mark, behind blanks. -/
theorem ItemsText.start {items : List Indicator} (text : ItemsText items cs) :
    ∃ gap rest, Blanks gap ∧ (∀ c ∈ rest.head?, c = '#') ∧ ItemsText items rest ∧
      cs = gap ++ rest := by
  cases text with
  | nil => exact ⟨[],[],by simp [Blanks],by simp,.nil,rfl⟩
  | @cons item items gap operands rest blanks given ends more =>
    have bare : ItemsText (item :: items) ('#' :: (item.word.toList ++ (operands ++ rest))) :=
      .cons (List.forall_mem_nil _) given ends more
    exact ⟨gap,_,blanks,by simp,bare,rfl⟩

theorem span_mark {front : List Char} (free : '#' ∉ front) (starts : ∀ c ∈ rest.head?, c = '#') :
    (front ++ rest).takeWhile (· != '#') = front ∧
      (front ++ rest).dropWhile (· != '#') = rest := by
  have plain : ∀ c ∈ front, (c != '#') = true := fun c member =>
    bne_iff_ne.mpr fun same => free (same ▸ member)
  rw [List.takeWhile_append_of_pos plain,List.dropWhile_append_of_pos plain]
  cases rest with
  | nil => simp
  | cons c rest => simp [starts c rfl]

theorem readClosing_eq_ok_iff {closed : Bool} :
    readClosing cs = .ok closed ↔ Padded (if closed then ['\x7d'] else []) cs := by
  have tight : Tight (if closed then ['\x7d'] else []) := by
    cases closed
    · exact .of_ends rfl
    · exact .of_ends rfl
  rw [← trim_eq_iff tight]
  unfold readClosing
  split
  next empty => cases closed <;> simp [empty]
  next brace => cases closed <;> simp [brace]
  next empty brace =>
    cases closed
    · simpa using empty
    · simpa using brace

namespace HeaderParts

variable {parts : HeaderParts} {text : List Char}

def header (parts : HeaderParts) (doc : Option String) : Header where
  node :=
    { name := parts.name
      superclass := parts.superclass
      indicators := parts.items.foldl Indicator.apply {}
      doc }
  closed := parts.closed

theorem declares_header (parts : HeaderParts) (doc : Option String) :
    parts.Declares doc (parts.header doc) := by
  obtain ⟨generic,unique,mangle⟩ := foldl_apply parts.items {}
  exact ⟨rfl,rfl,rfl,rfl,rfl,generic.trans (by simp),unique.trans (by simp),
    mangle.trans (Option.or_none ..)⟩

theorem Spells.read (spells : parts.Spells text) (doc : Option String) :
    readHeader text doc = .ok (parts.header doc) := by
  obtain ⟨before,after,names,items,rfl,first,closing,naming,listing,padded⟩ := spells
  have cut : cutAt '\x7b' (before ++ '\x7b' :: after) = some (before,after) :=
    cutAt_eq_some_iff.mpr ⟨first,rfl⟩
  have closed := readClosing_eq_ok_iff.mpr closing
  have head : trim before = names ++ items := padded.trim_eq (naming.tight_append listing)
  obtain ⟨gap,rest,blanks,starts,listing',rfl⟩ := listing.start
  have free : '#' ∉ names ++ gap := by
    simpa using ⟨naming.unmarked,blanks.not_mem rfl⟩
  obtain ⟨front,back⟩ := span_mark free starts
  rw [List.append_assoc] at front back
  have named : trim (names ++ gap) = names :=
    (trim_append_blanks blanks).trans naming.tight.trim_eq
  have loop : readIndicators (rest.length + 1) {} rest =
      .ok (parts.items.foldl Indicator.apply {}) :=
    (loops_of_items listing' {}).readIndicators_eq (Nat.lt_succ_self _)
  simp only [readHeader,cut,closed,head,front,back,named,readNames_of_text naming,loop]
  rfl

end HeaderParts

theorem spells_of_readHeader {text : List Char} {doc : Option String} {header : Header}
    (read : readHeader text doc = .ok header) : ∃ parts, HeaderParts.Spells parts text := by
  unfold readHeader at read
  split at read
  next => cases read
  next before after cut =>
    obtain ⟨first,rfl⟩ := cutAt_eq_some_iff.mp cut
    obtain ⟨closed,closing,read⟩ := bind_eq_ok_iff.mp read
    obtain ⟨⟨name,superclass⟩,naming,read⟩ := bind_eq_ok_iff.mp read
    obtain ⟨indicators,listing,_⟩ := bind_eq_ok_iff.mp read
    have tight := tight_trim before
    have padded := padded_trim before
    generalize trim before = head at naming listing tight padded
    have whole : head.takeWhile (· != '#') ++ head.dropWhile (· != '#') = head :=
      List.takeWhile_append_dropWhile
    -- Blanks between the names and the first mark are read with the indicators.
    obtain ⟨gap,blanks,front⟩ :=
      exists_blanks_behind (first_of_append (whole.symm ▸ tight.first))
    rw [front,List.append_assoc] at whole
    have last := last_of_append (whole.symm ▸ tight.last)
    have loops := (loops_iff (Nat.lt_succ_self _)).mpr listing
    obtain ⟨items,text,_⟩ := items_of_loops (loops.behind_blanks blanks) rfl last
    refine ⟨⟨name,superclass,items,closed⟩,before,after,_,_,rfl,first,
      readClosing_eq_ok_iff.mp closing,names_of_readNames (tight_trim _) naming,text,?_⟩
    rwa [whole]

/-- Once its header is read, nothing can go wrong with a node line. -/
theorem readNode_succeeds_iff (state : State) (number : Nat) (text : List Char) :
    (∃ next, state.readNode number text = .ok next) ↔
      ∃ header, readHeader text state.pendingDoc = .ok header := by
  simp only [State.readNode,bind_eq_ok_iff]
  constructor
  · rintro ⟨next,header,read,_⟩
    exact ⟨header,read⟩
  · rintro ⟨header,read⟩
    by_cases closed : header.closed = true
    · exact ⟨_,header,read,if_pos closed⟩
    · exact ⟨_,header,read,if_neg closed⟩

/-- Headers are read by their grammar, and a node is opened or declared by every text that belongs
to it. The loop over the indicators ends on every text, with the result of the reader. -/
theorem readHeader_followsGrammar :
    FollowsHeaders readHeader ∧
    (∀ state number text, (∃ next, State.readNode state number text = .ok next) ↔
      ∃ parts, HeaderParts.Spells parts text) ∧
    ∀ indicators cs, (∃! result, Loops indicators cs result) ∧
      ∀ fuel, cs.length < fuel → Loops indicators cs (readIndicators fuel indicators cs) := by
  have accepts (text doc) : (∃ header, readHeader text doc = .ok header) ↔
      ∃ parts, HeaderParts.Spells parts text := by
    constructor
    · rintro ⟨header,read⟩
      exact spells_of_readHeader read
    · rintro ⟨parts,spells⟩
      exact ⟨_,spells.read doc⟩
  refine ⟨⟨accepts,?_⟩,fun state number text => ?_,fun indicators cs => ⟨?_,?_⟩⟩
  · intro text doc parts header spells read
    rw [spells.read doc] at read
    cases read
    exact parts.declares_header doc
  · exact (readNode_succeeds_iff state number text).trans (accepts text state.pendingDoc)
  · refine ⟨_,(loops_iff (Nat.lt_succ_self _)).mpr rfl,fun other loops => ?_⟩
    exact (loops.readIndicators_eq (Nat.lt_succ_self _)).symm
  · exact fun fuel enough => loops_readIndicators fuel indicators cs enough

/-- A header with two pairs and no blanks between its indicators. -/
theorem readHeader_followsGrammar_crowded : ∃ parts header,
    HeaderParts.Spells parts "A: B#mangle(x, y)#unique#mangle( z,w)\x7b \x7d".toList ∧
    readHeader "A: B#mangle(x, y)#unique#mangle( z,w)\x7b \x7d".toList none = .ok header ∧
    parts.Declares none header ∧ "#unique".toList.length < 8 ∧
    Loops {} "#unique".toList (readIndicators 8 {} "#unique".toList) := by
  obtain ⟨⟨accepts,declares⟩,_,loops⟩ := readHeader_followsGrammar
  obtain ⟨parts,spells⟩ :=
    (accepts "A: B#mangle(x, y)#unique#mangle( z,w)\x7b \x7d".toList none).mp ⟨_,rfl⟩
  exact ⟨parts,_,spells,rfl,declares _ _ _ _ spells rfl,by decide,(loops _ _).2 8 (by decide)⟩

end NodeModel.Declaration
