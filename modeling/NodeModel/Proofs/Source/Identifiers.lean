import NodeModel.Proofs.Declaration.Canonical
import NodeModel.Proofs.Source.Spelling

/-! Which names of fields become identifiers that the emitted source may use. All do but one: the
lone underscore is an identifier in a schema, a pattern in the source, and stays as it is. -/
namespace NodeModel.Source

open Text

/-- Keywords in use, over all editions of the language. -/
def strictKeywords : List String :=
  ["as", "async", "await", "break", "const", "continue", "crate", "dyn", "else", "enum", "extern",
    "false", "fn", "for", "if", "impl", "in", "let", "loop", "match", "mod", "move", "mut", "pub",
    "ref", "return", "self", "Self", "static", "struct", "super", "trait", "true", "type", "unsafe",
    "use", "where", "while"]

def reservedKeywords : List String :=
  ["abstract", "become", "box", "do", "final", "gen", "macro", "override", "priv", "try", "typeof",
    "unsized", "virtual", "yield"]

/-- Keywords that start paths; the raw mark does not free them. -/
def pathKeywords : List String := ["self", "Self", "super", "crate"]

/-- A word, which has to be marked as raw if it is a keyword. -/
def Legal (ident : String) : Prop :=
  ∃ word, IsName word ∧ word ≠ "_" ∧ word ∉ pathKeywords ∧
    (ident = "r#" ++ word ∨ (ident = word ∧ word ∉ strictKeywords ++ reservedKeywords))

/-- Each character in lowercase, with an underscore before some that were uppercase. -/
inductive Lowered : List Char → List Char → Prop where
  | nil : Lowered [] []
  | letter {before after : List Char} (c : Char) (rest : Lowered before after) :
      Lowered (c :: before) (c.toLower :: after)
  | joined {before after : List Char} (c : Char) (upper : isUpper c = true)
      (rest : Lowered before after) : Lowered (c :: before) ('_' :: c.toLower :: after)

variable {name : String} {cs lowered : List Char} {c : Char}

theorem isUpper_toLower (word : isWordChar c = true) : isUpper c.toLower = false :=
  forall_wordChar (P := fun c => isUpper c.toLower = false) (by decide +kernel) word

theorem toLower_of_not_upper (word : isWordChar c = true) (plain : isUpper c = false) :
    c.toLower = c :=
  forall_wordChar (P := fun c => isUpper c = false → c.toLower = c) (by decide +kernel) word plain

theorem isWordStart_toLower (start : isWordStart c = true) : isWordStart c.toLower = true :=
  forall_wordChar (P := fun c => isWordStart c = true → isWordStart c.toLower = true)
    (by decide +kernel) (isWordChar_of_start start) start

theorem eq_underscore_of_toLower (word : isWordChar c = true) (same : c.toLower = '_') : c = '_' :=
  forall_wordChar (P := fun c => c.toLower = '_' → c = '_') (by decide +kernel) word same

theorem lowered_snakeFrom (before : Option Char) (word : ∀ c ∈ cs, isWordChar c = true) :
    Lowered cs (snakeFrom before cs) := by
  induction cs generalizing before with
  | nil => exact .nil
  | cons c cs ih =>
    obtain ⟨here,later⟩ := List.forall_mem_cons.mp word
    have rest := ih (some c) later
    rw [snakeFrom]
    split
    next upper =>
      rw [toLower_wordChar here]
      split
      · exact .joined c upper rest
      · exact .letter c rest
    next plain =>
      have kept := Lowered.letter c rest
      rwa [toLower_of_not_upper here (Bool.not_eq_true _ ▸ plain)] at kept

theorem Lowered.not_upper (change : Lowered cs lowered) (word : ∀ c ∈ cs, isWordChar c = true) :
    ∀ d ∈ lowered, isUpper d = false := by
  induction change with
  | nil => exact List.forall_mem_nil _
  | letter c rest ih =>
    obtain ⟨here,later⟩ := List.forall_mem_cons.mp word
    exact List.forall_mem_cons.mpr ⟨isUpper_toLower here,ih later⟩
  | joined c upper rest ih =>
    obtain ⟨here,later⟩ := List.forall_mem_cons.mp word
    exact List.forall_mem_cons.mpr
      ⟨by decide,List.forall_mem_cons.mpr ⟨isUpper_toLower here,ih later⟩⟩

/-- Words are only cut where there is an uppercase letter. -/
theorem snakeFrom_eq_self (before : Option Char) (plain : ∀ c ∈ cs, isUpper c = false) :
    snakeFrom before cs = cs := by
  induction cs generalizing before with
  | nil => rfl
  | cons c cs ih =>
    obtain ⟨here,later⟩ := List.forall_mem_cons.mp plain
    rw [snakeFrom,here,if_neg Bool.false_ne_true,ih _ later]

theorem snakeFrom_snakeFrom (word : ∀ c ∈ cs, isWordChar c = true) :
    snakeFrom none (snakeFrom none cs) = snakeFrom none cs :=
  snakeFrom_eq_self none ((lowered_snakeFrom none word).not_upper word)

/-- No underscore comes before the first character, so it stays one that a word may start with. -/
theorem isIdentifier_snakeFrom (named : isIdentifier cs = true) :
    isIdentifier (snakeFrom none cs) = true := by
  cases cs with
  | nil => exact absurd named Bool.false_ne_true
  | cons c cs =>
    obtain ⟨start,rest⟩ := Bool.and_eq_true_iff.mp named
    have rest' := snakeFrom_word (some c) (List.all_eq_true.mp rest)
    rw [snakeFrom]
    split
    next =>
      rw [toLower_wordChar (isWordChar_of_start start)]
      exact Bool.and_eq_true_iff.mpr ⟨isWordStart_toLower start,List.all_eq_true.mpr rest'⟩
    next => exact Bool.and_eq_true_iff.mpr ⟨start,List.all_eq_true.mpr rest'⟩

theorem isIdentifier_append {rest : List Char} (named : isIdentifier cs = true)
    (word : rest.all isWordChar = true) : isIdentifier (cs ++ rest) = true := by
  cases cs with
  | nil => exact absurd named Bool.false_ne_true
  | cons c cs =>
    obtain ⟨start,rest'⟩ := Bool.and_eq_true_iff.mp named
    refine Bool.and_eq_true_iff.mpr ⟨start,?_⟩
    exact List.all_append.trans (Bool.and_eq_true_iff.mpr ⟨rest',word⟩)

theorem Lowered.eq_underscore (change : Lowered cs lowered) (single : lowered = ['_'])
    (word : ∀ c ∈ cs, isWordChar c = true) : cs = ['_'] := by
  cases change with
  | nil => exact single
  | letter c rest =>
    obtain ⟨same,rfl⟩ := List.cons.inj single
    cases rest
    exact congrArg ([·]) (eq_underscore_of_toLower (word c List.mem_cons_self) same)
  | joined => exact absurd single (by simp)

theorem isName_snakeCase (named : IsName name) : IsName (snakeCase name) := by
  rw [IsName,snakeCase,String.toList_ofList]
  exact isIdentifier_snakeFrom named

theorem isName_append_underscore (named : IsName name) : IsName (name ++ "_") := by
  rw [IsName,String.toList_append]
  exact isIdentifier_append named (by decide)

theorem eq_underscore_of_snakeCase (named : IsName name) (same : snakeCase name = "_") :
    name = "_" := by
  have word := (Name.of_isIdentifier named).wordChars
  have single : snakeFrom none name.toList = ['_'] := by
    simpa [snakeCase] using congrArg String.toList same
  exact String.toList_injective ((lowered_snakeFrom none word).eq_underscore single word)

/-- The word behind a name is no path keyword, and the lone underscore only if the name is. -/
theorem spelling_usable (named : IsName name) (other : name ≠ "_") :
    IsName (spelling name) ∧ spelling name ≠ "_" ∧ spelling name ∉ pathKeywords := by
  have snake := isName_snakeCase named
  have apart : ∀ word ∈ reserved, word ++ "_" ≠ "_" ∧ word ++ "_" ∉ pathKeywords := by decide
  unfold spelling
  split
  next held => exact ⟨isName_append_underscore snake,apart _ held⟩
  next free => exact ⟨snake,fun same => other (eq_underscore_of_snakeCase named same),free⟩

theorem legal_escaped {word : String} (named : IsName word) (other : word ≠ "_")
    (free : word ∉ pathKeywords) : Legal (escaped word) := by
  have listed : ∀ keyword ∈ strictKeywords ++ reservedKeywords,
      keyword ∈ keywords ∨ keyword ∈ pathKeywords := by decide +kernel
  refine ⟨word,named,other,free,?_⟩
  unfold escaped
  split
  next => exact .inl rfl
  next plain => exact .inr ⟨rfl,fun keyword => (listed word keyword).elim plain free⟩

theorem not_legal_underscore : ¬ Legal (fieldIdent "_") := by
  have kept : fieldIdent "_" = "_" := by decide
  rw [kept]
  rintro ⟨word,_,other,_,raw | ⟨same,_⟩⟩
  · have marked := congrArg String.toList raw
    simp at marked
  · exact other same.symm

/-- A field has a legal identifier unless its name is the lone underscore. The conversion to
lowercase words changes nothing but the case of letters and the underscores it puts in, and nothing
at all when it is done again. -/
theorem fieldIdent_legal_iff (named : IsName name) :
    (Legal (fieldIdent name) ↔ name ≠ "_") ∧ Lowered name.toList (snakeCase name).toList ∧
      snakeCase (snakeCase name) = snakeCase name := by
  have word := (Name.of_isIdentifier named).wordChars
  refine ⟨⟨?_,?_⟩,?_,?_⟩
  · rintro legal rfl
    exact not_legal_underscore legal
  · intro other
    obtain ⟨named',other',free⟩ := spelling_usable named other
    rw [fieldIdent_eq]
    exact legal_escaped named' other' free
  · rw [snakeCase,String.toList_ofList]
    exact lowered_snakeFrom none word
  · rw [snakeCase,snakeCase,String.toList_ofList,snakeFrom_snakeFrom word]

theorem fieldIdent_legal_iff_keyword : IsName "Type" ∧ Legal (fieldIdent "Type") ∧
    fieldIdent "Type" = "r#type" := by
  have named : IsName "Type" := show isIdentifier "Type".toList = true by decide
  exact ⟨named,(fieldIdent_legal_iff named).1.mpr (by decide),by decide⟩

/-- So a schema may have a field that the emitted source cannot name. -/
theorem fieldIdent_underscore : IsName "_" ∧ ¬ Legal (fieldIdent "_") :=
  ⟨show isIdentifier "_".toList = true by decide,not_legal_underscore⟩

example : fieldIdent "HTTPServer2X" = "http_server2_x" ∧ fieldIdent "Self" = "self_" := by decide

end NodeModel.Source
