import Mathlib.Data.List.Nodup
import NodeModel.Proofs.Text.Pieces
import NodeModel.Source.Item

/-! The names of the emitted members. Each is made from one word, the spelling of its field, and two
members have one name exactly if their fields are spelled so that they clash. -/
namespace NodeModel.Source

open Text

/-- The word that all names of a field are made from. -/
def spelling (name : String) : String :=
  if snakeCase name ∈ reserved then snakeCase name ++ "_" else snakeCase name

def escaped (word : String) : String := if word ∈ keywords then "r#" ++ word else word

def getterName (word : String) : String :=
  if word ∈ methodNames then word ++ "_field" else escaped word

def setterName (word : String) : String := "set_" ++ word

/-- One of two accessors of a field has the name of an accessor of the other, though the fields are
spelled differently: a getter that has been renamed, or a setter, takes the name of a getter. -/
def Shadows (word other : String) : Prop :=
  (word ∈ methodNames ∧ other = word ++ "_field") ∨ other = setterName word

/-- The accessors of two fields have a name in common. -/
def Clash (word other : String) : Prop :=
  word = other ∨ Shadows word other ∨ Shadows other word

instance decidableShadows (word other : String) : Decidable (Shadows word other) :=
  inferInstanceAs (Decidable (_ ∨ _))

instance decidableClash (word other : String) : Decidable (Clash word other) :=
  inferInstanceAs (Decidable (_ ∨ _ ∨ _))

def IsWord (text : String) : Prop := text.toList.all isWordChar = true

instance decidableIsWord (text : String) : Decidable (IsWord text) :=
  inferInstanceAs (Decidable (_ = true))

theorem toLower_wordChar {c : Char} (word : isWordChar c = true) : toLower c = [c.toLower] := by
  simp [toLower,ascii_of_wordChar word]

theorem wordChar_toLower {c : Char} (word : isWordChar c = true) :
    ∀ d ∈ toLower c, isWordChar d = true := by
  rw [toLower_wordChar word,List.forall_mem_singleton]
  exact forall_wordChar (P := fun c => isWordChar c.toLower = true) (by decide +kernel) word

theorem snakeFrom_word {cs : List Char} (before : Option Char)
    (word : ∀ c ∈ cs, isWordChar c = true) : ∀ c ∈ snakeFrom before cs, isWordChar c = true := by
  induction cs generalizing before with
  | nil => simp [snakeFrom]
  | cons c cs ih =>
    obtain ⟨here,later⟩ := List.forall_mem_cons.mp word
    rw [snakeFrom]
    split
    · simp only [List.forall_mem_append]
      refine ⟨⟨?_,wordChar_toLower here⟩,ih _ later⟩
      split
      · exact List.forall_mem_singleton.mpr rfl
      · exact List.forall_mem_nil _
    · exact List.forall_mem_cons.mpr ⟨here,ih _ later⟩

theorem IsWord.append {word rest : String} (ok : IsWord word) (ok' : IsWord rest) :
    IsWord (word ++ rest) := by
  rw [IsWord,String.toList_append,List.all_append,Bool.and_eq_true]
  exact ⟨ok,ok'⟩

theorem IsWord.free {word : String} (ok : IsWord word) {mark : Char}
    (other : isWordChar mark = false) : mark ∉ word.toList := by
  intro inside
  simp [List.all_eq_true.mp ok mark inside] at other

theorem isWord_snakeCase {name : String} (ok : IsWord name) : IsWord (snakeCase name) := by
  rw [IsWord,snakeCase,String.toList_ofList,List.all_eq_true]
  exact snakeFrom_word none (List.all_eq_true.mp ok)

theorem isWord_spelling {name : String} (ok : IsWord name) : IsWord (spelling name) := by
  unfold spelling
  split
  · exact (isWord_snakeCase ok).append (by decide)
  · exact isWord_snakeCase ok

theorem fieldIdent_eq (name : String) : fieldIdent name = escaped (spelling name) := by
  have apart : ∀ word ∈ reserved, word ++ "_" ∉ keywords := by decide
  unfold fieldIdent spelling
  by_cases held : snakeCase name ∈ reserved
  · simp [escaped,held,apart _ held]
  · simp [escaped,held]

theorem bare_word {word : String} (ok : IsWord word) : bare word = word := by
  unfold bare
  split
  next rest same => exact absurd (same ▸ by simp : '#' ∈ word.toList) (ok.free (by decide))
  next => rfl

theorem bare_escaped {word : String} (ok : IsWord word) : bare (escaped word) = word := by
  unfold escaped
  split
  next =>
    have raw : ("r#" ++ word).toList = 'r' :: '#' :: word.toList := by simp
    simp [bare,raw]
  next => exact bare_word ok

theorem bare_fieldIdent {name : String} (ok : IsWord name) :
    bare (fieldIdent name) = spelling name := by
  rw [fieldIdent_eq,bare_escaped (isWord_spelling ok)]

theorem escaped_inj {word other : String} (ok : IsWord word) (ok' : IsWord other) :
    escaped word = escaped other ↔ word = other := by
  constructor
  · intro same
    rw [← bare_escaped ok,same,bare_escaped ok']
  · rintro rfl
    rfl

/-- But for the mark of a raw identifier there is nothing in a name that is not in words. -/
theorem escaped_free {word : String} (ok : IsWord word) {mark : Char}
    (other : isWordChar mark = false) (unmarked : mark ≠ '#') : mark ∉ (escaped word).toList := by
  have free := ok.free other
  unfold escaped
  split
  next =>
    have first : mark ≠ 'r' := by
      rintro rfl
      exact absurd other (by decide)
    simp [free,first,unmarked]
  next => exact free

theorem getterName_free {word : String} (ok : IsWord word) {mark : Char}
    (other : isWordChar mark = false) (unmarked : mark ≠ '#') :
    mark ∉ (getterName word).toList := by
  unfold getterName
  split
  · exact (ok.append (by decide)).free other
  · exact escaped_free ok other unmarked

theorem accessorName_eq {field : Model.Field} (ok : IsWord field.name) :
    accessorName field = getterName (spelling field.name) := by
  rw [accessorName,bare_fieldIdent ok,fieldIdent_eq]
  simp [getterName]

theorem renamed_free : ∀ word ∈ methodNames, word ++ "_field" ∉ methodNames ∧
    word ++ "_field" ∉ keywords ∧ IsWord (word ++ "_field") := by decide +kernel

theorem escaped_eq_renamed {word other : String} (ok : IsWord other) (held : word ∈ methodNames) :
    escaped other = word ++ "_field" ↔ other = word ++ "_field" := by
  obtain ⟨_,plain,renamed⟩ := renamed_free word held
  constructor
  · intro same
    rw [← bare_escaped ok,same,bare_word renamed]
  · rintro rfl
    exact if_neg plain

theorem getterName_eq_iff {word other : String} (ok : IsWord word) (ok' : IsWord other) :
    getterName word = getterName other ↔ word = other ∨
      (word ∈ methodNames ∧ other = word ++ "_field") ∨
      (other ∈ methodNames ∧ word = other ++ "_field") := by
  by_cases held : word ∈ methodNames <;> by_cases held' : other ∈ methodNames
  · have apart : other ≠ word ++ "_field" := fun same => (renamed_free word held).1 (same ▸ held')
    have apart' : word ≠ other ++ "_field" := fun same => (renamed_free other held').1 (same ▸ held)
    simp [getterName,held,held',apart,apart']
  · have apart : word ≠ other := fun same => held' (same ▸ held)
    have renamed := escaped_eq_renamed ok' held
    simp only [getterName,held,held',if_true,if_false,true_and,false_and,or_false,apart,false_or]
    rw [eq_comm,renamed]
  · have apart : word ≠ other := fun same => held (same ▸ held')
    have renamed := escaped_eq_renamed ok held'
    simp only [getterName,held,held',if_true,if_false,true_and,false_and,apart,false_or]
    exact renamed
  · simp [getterName,held,held',escaped_inj ok ok']

theorem isWord_setterName {word : String} (ok : IsWord word) : IsWord (setterName word) :=
  IsWord.append (by decide) ok

/-- No fixed name and no keyword starts like a setter. -/
theorem setterName_free (word : String) : setterName word ∉ methodNames ∧
    setterName word ∉ methodNames.map (· ++ "_field") ∧ setterName word ∉ keywords := by
  have start : "set_".toList <+: (setterName word).toList := by simp [setterName]
  have apart : ∀ name ∈ methodNames ++ methodNames.map (· ++ "_field") ++ keywords,
      ¬ "set_".toList <+: name.toList := by decide +kernel
  simp only [List.forall_mem_append] at apart
  exact ⟨fun inside => apart.1.1 _ inside start,fun inside => apart.1.2 _ inside start,
    fun inside => apart.2 _ inside start⟩

theorem getterName_eq_setterName {word other : String} (ok : IsWord word) (ok' : IsWord other) :
    getterName word = setterName other ↔ word = setterName other := by
  have setter := isWord_setterName ok'
  obtain ⟨fixed,renamed,plain⟩ := setterName_free other
  constructor
  · intro same
    unfold getterName at same
    split at same
    next held => exact absurd (same ▸ List.mem_map_of_mem held) renamed
    next => rw [← bare_escaped ok,same,bare_word setter]
  · rintro rfl
    simp [getterName,fixed,escaped,plain]

theorem setterName_inj {word other : String} : setterName word = setterName other ↔ word = other :=
  String.append_right_inj _

theorem ne_setterName (word : String) : word ≠ setterName word := by
  intro same
  have longer := congrArg String.length same
  simp [setterName] at longer

theorem getterName_not_mem {word : String} (ok : IsWord word) : getterName word ∉ methodNames := by
  unfold getterName
  split
  next held => exact (renamed_free word held).1
  next free =>
    intro inside
    have plain : ∀ name ∈ methodNames, bare name = name := by decide
    have same := plain _ inside
    rw [bare_escaped ok] at same
    exact free (same ▸ inside)

def accessorNames (word : String) : List String := [getterName word,setterName word]

theorem accessorNames_nodup {word : String} (ok : IsWord word) : (accessorNames word).Nodup := by
  simpa [accessorNames,getterName_eq_setterName ok ok] using ne_setterName word

theorem accessorNames_disjoint_iff {word other : String} (ok : IsWord word) (ok' : IsWord other) :
    (accessorNames word).Disjoint (accessorNames other) ↔ ¬ Clash word other := by
  have crossed : setterName word = getterName other ↔ other = setterName word := by
    rw [eq_comm,getterName_eq_setterName ok' ok]
  simp only [accessorNames,List.disjoint_cons_left,List.disjoint_nil_left,List.mem_cons,
    List.not_mem_nil,or_false,and_true,getterName_eq_iff ok ok',getterName_eq_setterName ok ok',
    crossed,setterName_inj,Clash,Shadows]
  tauto

/-- The methods of a struct have different names exactly if no two of the fields that have
accessors clash; the fixed names are out of their way. -/
theorem methods_nodup_iff {words first rest : List String} (ok : ∀ word ∈ words, IsWord word)
    (fixed : (first ++ rest).Sublist methodNames) :
    (first ++ words.flatMap accessorNames ++ rest).Nodup ↔
      words.Pairwise fun word other => ¬ Clash word other := by
  have apart : (words.flatMap accessorNames).Disjoint (first ++ rest) := by
    intro name inside again
    obtain ⟨word,member,one⟩ := List.mem_flatMap.mp inside
    simp only [accessorNames,List.mem_cons,List.not_mem_nil,or_false] at one
    obtain rfl | rfl := one
    · exact getterName_not_mem (ok word member) (fixed.subset again)
    · exact (setterName_free word).1 (fixed.subset again)
  have distinct : (first ++ rest).Nodup := fixed.nodup (by decide)
  have order : (first ++ words.flatMap accessorNames ++ rest).Perm
      (words.flatMap accessorNames ++ (first ++ rest)) := by
    rw [← List.append_assoc]
    exact List.perm_append_comm.append_right rest
  rw [order.nodup_iff,List.nodup_append',List.nodup_flatMap]
  constructor
  · rintro ⟨⟨_,pairs⟩,_⟩
    refine pairs.imp_of_mem fun inside inside' separate => ?_
    exact (accessorNames_disjoint_iff (ok _ inside) (ok _ inside')).mp separate
  · intro pairs
    refine ⟨⟨fun word inside => accessorNames_nodup (ok word inside),?_⟩,distinct,apart⟩
    refine pairs.imp_of_mem fun inside inside' free => ?_
    exact (accessorNames_disjoint_iff (ok _ inside) (ok _ inside')).mpr free

/-- The members of a struct have different names exactly if no two fields are spelled alike. -/
theorem members_nodup_iff {names : List String} (ok : ∀ name ∈ names, IsWord name) :
    (names.map fieldIdent).Nodup ↔ names.Pairwise fun name other =>
      spelling name ≠ spelling other := by
  rw [List.Nodup,List.pairwise_map]
  refine List.Pairwise.iff_of_mem fun inside inside' => not_congr ?_
  rw [fieldIdent_eq,fieldIdent_eq,escaped_inj (isWord_spelling (ok _ inside))
    (isWord_spelling (ok _ inside'))]

end NodeModel.Source
