import NodeModel.Proofs.Declaration.FieldLine

/-! Node headers: the canonical header of a node is read as the node without its fields, and what is
read from any header can be expressed. -/
namespace NodeModel

open Text

variable {externals : List String}

def Indicators.Named (indicators : Indicators) : Prop :=
  ∀ pair, indicators.mangle = some pair → IsName pair.nameField ∧ IsName pair.flagField

namespace Declaration

theorem commaList_nameList {names : List String} (some : names ≠ [])
    (each : ∀ name ∈ names, IsName name) :
    commaList (nameList names) = names.map String.toList := by
  refine commaList_names (by simpa using some) fun name member => ?_
  obtain ⟨name,inside,rfl⟩ := List.mem_map.mp member
  exact (each name inside).name

theorem nameList_chars {names : List String} (each : ∀ name ∈ names, IsName name) :
    ∀ c ∈ nameList names, isWordChar c = true ∨ c ∈ [',',' '] := by
  induction names with
  | nil => simp [nameList]
  | cons name names ih =>
    have first := (each name List.mem_cons_self).name.wordChars
    have later := ih fun other member => each other (List.mem_cons_of_mem _ member)
    cases names with
    | nil => simpa [nameList] using fun c member => .inl (first c member)
    | cons next names =>
      intro c member
      have parts : c ∈ name.toList ∨ c ∈ [',',' '] ∨ c ∈ nameList (next :: names) := by
        simpa [nameList,List.intercalate_cons_cons,or_assoc] using member
      rcases parts with inside | comma | rest
      · exact .inl (first c inside)
      · exact .inr comma
      · exact later c rest

theorem pair_names {pair : ManglePair} (named : IsName pair.nameField ∧ IsName pair.flagField) :
    ∀ name ∈ [pair.nameField,pair.flagField], IsName name := by
  simpa using named

theorem readMangle_operands {pair : ManglePair}
    (named : IsName pair.nameField ∧ IsName pair.flagField) (rest : List Char) :
    readMangle ((Indicator.mangle pair).operands ++ rest) = .ok (pair,rest) := by
  have each := pair_names named
  have free : ')' ∉ nameList [pair.nameField,pair.flagField] := by
    intro member
    exact (nameList_chars each _ member).elim (absurd · (by decide)) (absurd · (by decide))
  have cut : cutAt ')' (nameList [pair.nameField,pair.flagField] ++ ')' :: rest) =
      some (nameList [pair.nameField,pair.flagField],rest) := cutAt_eq_some_iff.mpr ⟨free,rfl⟩
  have names : isIdentifier pair.nameField.toList = true ∧
      isIdentifier pair.flagField.toList = true := named
  simp [Indicator.operands,readMangle,cut,commaList_nameList _ each,names]

theorem span_word {word rest : List Char} (chars : ∀ c ∈ word, isWordChar c = true)
    (ends : ∀ c ∈ rest.head?, isWordChar c = false) :
    (word ++ rest).takeWhile isWordChar = word ∧ (word ++ rest).dropWhile isWordChar = rest := by
  rw [List.takeWhile_append_of_pos chars,List.dropWhile_append_of_pos chars]
  cases rest with
  | nil => simp
  | cons c rest => simp [ends c rfl]

theorem Indicator.word_chars (item : Indicator) : ∀ c ∈ item.word.toList, isWordChar c = true := by
  cases item with
  | mangle pair =>
    exact List.all_iff_forall_prop.mp
      (show "mangle".toList.all (fun c => isWordChar c = true) = true by decide)
  | _ => exact List.all_iff_forall_prop.mp (by decide)

/-- An indicator is read up to its end. -/
theorem readIndicator_text (item : Indicator) (indicators : Indicators)
    (named : (item.apply indicators).Named) {rest : List Char}
    (ends : ∀ c ∈ rest.head?, isWordChar c = false) :
    readIndicator indicators (item.word.toList ++ (item.operands ++ rest)) =
      .ok (item.apply indicators,rest) := by
  have stops : ∀ c ∈ (item.operands ++ rest).head?, isWordChar c = false := by
    cases item with
    | mangle pair => simp [Indicator.operands]; decide
    | _ => exact ends
  obtain ⟨taken,left⟩ := span_word item.word_chars stops
  simp only [readIndicator,taken,left,String.ofList_toList]
  cases item with
  | mangle pair =>
    simp only [Indicator.word,readMangle_operands (named pair rfl)]
    rfl
  | _ => rfl

theorem itemsText_ends (items : List Indicator) :
    ∀ c ∈ (itemsText items).head?, isWordChar c = false := by
  cases items with
  | nil => simp [itemsText]
  | cons item items => simp [itemsText]; decide

theorem length_le_itemsText (items : List Indicator) : items.length ≤ (itemsText items).length := by
  induction items with
  | nil => simp
  | cons item items ih =>
    simp only [itemsText,List.flatMap_cons,List.length_append,List.length_cons] at ih ⊢
    omega

theorem trimStart_itemsText (item : Indicator) (items : List Indicator) :
    trimStart (itemsText (item :: items)) =
      '#' :: (item.word.toList ++ (item.operands ++ itemsText items)) := by
  simp [itemsText,Indicator.text,trimStart,isBlank]

theorem readIndicators_items (items : List Indicator) (fuel : Nat) (indicators : Indicators)
    (enough : items.length < fuel) (named : indicators.Named)
    (each : ∀ pair, .mangle pair ∈ items → IsName pair.nameField ∧ IsName pair.flagField) :
    readIndicators fuel indicators (itemsText items) =
      .ok (items.foldl Indicator.apply indicators) := by
  induction items generalizing fuel indicators with
  | nil =>
    cases fuel with
    | zero => simp at enough
    | succ fuel => rfl
  | cons item items ih =>
    cases fuel with
    | zero => simp at enough
    | succ fuel =>
      have next : (item.apply indicators).Named := by
        cases item with
        | mangle pair =>
          intro other same
          cases same
          exact each pair List.mem_cons_self
        | _ => exact named
      have first := readIndicator_text item indicators next (itemsText_ends items)
      simp only [readIndicators,trimStart_itemsText,first]
      exact ih fuel _ (by simpa using enough) next fun pair member =>
        each pair (List.mem_cons_of_mem _ member)

end Declaration

open Declaration

theorem Indicators.items_apply (indicators : Indicators) :
    indicators.items.foldl Indicator.apply {} = indicators := by
  obtain ⟨generic,unique,mangle⟩ := indicators
  cases generic <;> cases unique <;> cases mangle <;> rfl

theorem Indicators.mem_items {indicators : Indicators} {pair : ManglePair} :
    .mangle pair ∈ indicators.items ↔ indicators.mangle = some pair := by
  obtain ⟨generic,unique,mangle⟩ := indicators
  cases generic <;> cases unique <;> simp [Indicators.items]

namespace Declaration

theorem readNames_text {node : NodeDecl} (ok : node.Expressible externals) :
    readNames node.namesText = .ok (node.name,node.superclass) := by
  have named : isIdentifier node.name.toList = true := ok.name
  have name := ok.name.name
  cases parent : node.superclass with
  | none =>
    have whole : cutAt ':' node.name.toList = none := cutAt_eq_none_iff.mpr (name.free rfl)
    simp [readNames,NodeDecl.namesText,parent,whole,named]
  | some superclass =>
    have named' : isIdentifier superclass.toList = true := ok.superclass superclass parent
    have name' := (ok.superclass superclass parent).name
    have cut : cutAt ':' node.namesText =
        some (node.name.toList ++ [' '],' ' :: superclass.toList) := by
      refine cutAt_eq_some_iff.mpr ⟨?_,by simp [NodeDecl.namesText,parent]⟩
      simpa using name.free rfl
    have before : trim (node.name.toList ++ [' ']) = node.name.toList :=
      (trim_append_blank rfl).trans name.tight.trim_eq
    have after : trim (' ' :: superclass.toList) = superclass.toList :=
      (trim_cons_blank rfl).trans name'.tight.trim_eq
    simp [readNames,cut,before,after,named,named']

theorem namesText_chars {node : NodeDecl} (ok : node.Expressible externals) :
    ∀ c ∈ node.namesText, isWordChar c = true ∨ c ∈ [' ',':'] := by
  intro c member
  rcases List.mem_append.mp member with inside | inside
  · exact .inl (ok.name.name.wordChars c inside)
  · cases parent : node.superclass with
    | none => simp [parent] at inside
    | some superclass =>
      have parts : c ∈ [' ',':'] ∨ c ∈ superclass.toList := by
        simp only [parent,List.mem_append] at inside
        exact inside.imp_left (by simp; tauto)
      exact parts.symm.imp_left ((ok.superclass superclass parent).name.wordChars c)

theorem itemsText_chars {items : List Indicator}
    (each : ∀ pair, .mangle pair ∈ items → IsName pair.nameField ∧ IsName pair.flagField) :
    ∀ c ∈ itemsText items, isWordChar c = true ∨ c ∈ [' ','#','(',',',')'] := by
  intro c member
  obtain ⟨item,listed,inside⟩ := List.mem_flatMap.mp member
  simp only [Indicator.text,List.cons_append,List.mem_cons,List.mem_append] at inside
  rcases inside with rfl | rfl | word | operands
  · simp
  · simp
  · exact .inl (item.word_chars c word)
  · cases item with
    | mangle pair =>
      have chars := nameList_chars (pair_names (each pair listed))
      simp only [Indicator.operands,List.cons_append,List.mem_cons,List.mem_append,
        List.not_mem_nil,or_false] at operands
      rcases operands with rfl | names | rfl
      · simp
      · exact (chars c names).imp_right fun comma => by simp at comma ⊢; tauto
      · simp
    | _ => cases operands

theorem namesText_tight {node : NodeDecl} (ok : node.Expressible externals) :
    Tight node.namesText ∧ node.namesText ≠ [] := by
  have name := ok.name.name
  unfold NodeDecl.namesText
  cases parent : node.superclass with
  | none => simpa only [List.append_nil] using ⟨name.tight,name.ne_nil⟩
  | some superclass =>
    have name' := (ok.superclass superclass parent).name
    refine ⟨?_,by simp [name.ne_nil]⟩
    rw [← List.append_assoc]
    exact name.tight.join name'.tight name.ne_nil name'.ne_nil

theorem Indicator.text_tight (item : Indicator) : Tight item.text := by
  cases item with
  | generic => exact .of_ends (by decide)
  | unique => exact .of_ends (by decide)
  | mangle pair =>
    have parts : (Indicator.mangle pair).text =
        "#mangle(".toList ++ nameList [pair.nameField,pair.flagField] ++ [')'] := by
      simp [Indicator.text,Indicator.word,Indicator.operands]
    rw [parts]
    exact Tight.join (.of_ends (by decide)) (.of_ends (by decide)) (by decide) (by decide)

theorem headText_tight {node : NodeDecl} (ok : node.Expressible externals) :
    Tight node.headText := by
  obtain ⟨tight,some⟩ := namesText_tight ok
  have whole := tight.append_spaced some (node.indicators.items.map Indicator.text) (by
    intro part member
    obtain ⟨item,_,rfl⟩ := List.mem_map.mp member
    exact ⟨by simp [Indicator.text],item.text_tight⟩)
  simpa [NodeDecl.headText,itemsText,List.flatMap_map] using whole

theorem headText_ne_nil {node : NodeDecl} (ok : node.Expressible externals) :
    node.headText ≠ [] := by
  simp [NodeDecl.headText,(namesText_tight ok).2]

theorem headText_chars {node : NodeDecl} (ok : node.Expressible externals) :
    ∀ c ∈ node.headText, isWordChar c = true ∨ c ∈ [' ',':','#','(',',',')'] := by
  intro c member
  rcases List.mem_append.mp member with names | items
  · exact (namesText_chars ok c names).imp_right fun mark => by simp at mark ⊢; tauto
  · refine (itemsText_chars (fun pair listed => ?_) c items).imp_right fun mark => by
      simp at mark ⊢; tauto
    exact ok.mangle pair (Indicators.mem_items.mp listed)

theorem span_items {cs : List Char} (free : '#' ∉ cs) (items : List Indicator) :
    trim ((cs ++ itemsText items).takeWhile (· != '#')) = trim cs ∧
    (cs ++ itemsText items).dropWhile (· != '#') = trimStart (itemsText items) := by
  have plain : ∀ c ∈ cs, (c != '#') = true := fun c member =>
    bne_iff_ne.mpr fun same => free (same ▸ member)
  rw [List.takeWhile_append_of_pos plain,List.dropWhile_append_of_pos plain]
  cases items with
  | nil => simp [itemsText,trimStart]
  | cons item items =>
    have blank : isBlank ' ' = true := rfl
    rw [trimStart_itemsText]
    simp [itemsText,Indicator.text,trim_append_blank,blank]

/-- All indicators of a header are read, whether or not there is a blank before them. -/
theorem readIndicators_text {indicators : Indicators} (named : indicators.Named) :
    readIndicators ((trimStart (itemsText indicators.items)).length + 1) {}
      (trimStart (itemsText indicators.items)) = .ok indicators := by
  have trimmed (fuel : Nat) (cs : List Char) :
      readIndicators fuel {} (trimStart cs) = readIndicators fuel {} cs := by
    cases fuel with
    | zero => rfl
    | succ fuel => simp only [readIndicators,trimStart,List.dropWhile_idempotent]
  have enough : indicators.items.length < (trimStart (itemsText indicators.items)).length + 1 := by
    cases indicators.items with
    | nil => simp
    | cons item items =>
      have rest := length_le_itemsText items
      simp only [trimStart_itemsText,List.length_cons,List.length_append]
      omega
  rw [trimmed,readIndicators_items _ _ _ enough (by simp [Indicators.Named])
    fun pair member => named pair (Indicators.mem_items.mp member),indicators.items_apply]

/-- The header of a node is read as the node without its fields. -/
theorem readHeader_text {node : NodeDecl} (ok : node.Expressible externals) (doc : Option String) :
    readHeader (node.headText ++ [' ','\x7b']) doc =
      .ok ⟨{ node with doc := doc, fields := [] },false⟩ := by
  have cut : cutAt '\x7b' (node.headText ++ [' ','\x7b']) = some (node.headText ++ [' '],[]) := by
    refine cutAt_eq_some_iff.mpr ⟨fun member => ?_,by simp⟩
    rcases List.mem_append.mp member with inside | blank
    · exact (headText_chars ok _ inside).elim (absurd · (by decide)) (absurd · (by decide))
    · exact absurd blank (by decide)
  have head : trim (node.headText ++ [' ']) = node.headText :=
    (trim_append_blank rfl).trans (headText_tight ok).trim_eq
  have noMark : '#' ∉ node.namesText := fun member =>
    (namesText_chars ok _ member).elim (absurd · (by decide)) (absurd · (by decide))
  have names : trim (node.headText.takeWhile (· != '#')) = node.namesText :=
    (span_items noMark _).1.trans (namesText_tight ok).1.trim_eq
  have rest : node.headText.dropWhile (· != '#') = trimStart (itemsText node.indicators.items) :=
    (span_items noMark _).2
  simp only [readHeader,cut,head,names,rest,readNames_text ok,readIndicators_text ok.mangle]
  rfl

theorem readMangle_named {cs rest : List Char} {pair : ManglePair}
    (read : readMangle cs = .ok (pair,rest)) : IsName pair.nameField ∧ IsName pair.flagField := by
  unfold readMangle at read
  split at read
  next =>
    split at read
    next => cases read
    next =>
      split at read
      next =>
        split at read
        next names =>
          cases read
          simpa [IsName] using names
        next => cases read
      next => cases read
  next => cases read

theorem readIndicator_named {indicators after : Indicators} {cs rest : List Char}
    (named : indicators.Named) (read : readIndicator indicators cs = .ok (after,rest)) :
    after.Named := by
  unfold readIndicator at read
  simp only at read
  split at read
  next => cases read; exact named
  next => cases read; exact named
  next =>
    obtain ⟨⟨pair,rest'⟩,inner,read⟩ := bind_eq_ok_iff.mp read
    cases read
    rintro _ ⟨⟩
    exact readMangle_named inner
  next => cases read

theorem readIndicators_named {fuel : Nat} {indicators after : Indicators} {cs : List Char}
    (named : indicators.Named) (read : readIndicators fuel indicators cs = .ok after) :
    after.Named := by
  induction fuel generalizing indicators cs with
  | zero => cases read; exact named
  | succ fuel ih =>
    unfold readIndicators at read
    split at read
    next => cases read; exact named
    next =>
      obtain ⟨⟨next,rest⟩,first,read⟩ := bind_eq_ok_iff.mp read
      exact ih (readIndicator_named named first) read
    next => cases read

theorem readNames_named {cs : List Char} {name : String} {superclass : Option String}
    (read : readNames cs = .ok (name,superclass)) :
    IsName name ∧ ∀ parent, superclass = some parent → IsName parent := by
  cases cut : cutAt ':' cs with
  | none =>
    simp only [readNames,cut] at read
    split at read
    next => cases read
    next named =>
      cases read
      exact ⟨by simpa [IsName] using named,by simp⟩
  | some parts =>
    simp only [readNames,cut] at read
    split at read
    next => cases read
    next named =>
      split at read
      next named' =>
        cases read
        refine ⟨by simpa [IsName] using named,?_⟩
        rintro _ ⟨⟩
        simpa [IsName] using named'
      next => cases read

/-- Whatever is read from a header can be expressed. -/
theorem readHeader_expressible {cs : List Char} {doc : Option String} {header : Header}
    (documented : Documented doc) (read : readHeader cs doc = .ok header) :
    header.node.Expressible [] := by
  unfold readHeader at read
  split at read
  next => cases read
  next =>
    obtain ⟨closed,_,read⟩ := bind_eq_ok_iff.mp read
    obtain ⟨⟨name,superclass⟩,names,read⟩ := bind_eq_ok_iff.mp read
    obtain ⟨indicators,items,read⟩ := bind_eq_ok_iff.mp read
    cases read
    obtain ⟨named,parent⟩ := readNames_named names
    exact ⟨named,parent,readIndicators_named (by simp [Indicators.Named]) items,documented,by simp⟩

end Declaration

end NodeModel
