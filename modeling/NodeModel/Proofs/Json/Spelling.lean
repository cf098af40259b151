import NodeModel.Proofs.Json.Quoting

/-! The texts that stand for a JSON value. Blanks may stand before every item, key and value and
before every closing bracket; the compact text has none of them. -/
namespace NodeModel.Json

def Blank (cs : List Char) : Prop := ∀ c ∈ cs, isSpace c = true

def separator (first : Bool) : List Char := if first then [] else [',']

mutual

/-- `text` stands for a value, without blanks around it. -/
inductive Spells : Json → List Char → Prop where
  | null : Spells .null "null".toList
  | boolean (value : Bool) : Spells (.boolean value) (literal value)
  | number (value : Number) : Spells (.number value) value.chars
  | string (value : String) : Spells (.string value) (quote value)
  | array {items : List Json} {text : List Char} (inside : SpellsItems true items text) :
      Spells (.array items) ('[' :: text)
  | object {members : List (String × Json)} {text : List Char}
      (inside : SpellsMembers true members text) : Spells (.object members) ('\x7b' :: text)

/-- The items that are still to come in an array, and its closing bracket. -/
inductive SpellsItems : Bool → List Json → List Char → Prop where
  | close {first : Bool} {blank : List Char} (empty : Blank blank) :
      SpellsItems first [] (blank ++ [']'])
  | next {first : Bool} {item : Json} {items : List Json} {blank text rest : List Char}
      (empty : Blank blank) (value : Spells item text) (more : SpellsItems false items rest) :
      SpellsItems first (item :: items) (separator first ++ blank ++ text ++ rest)

inductive SpellsMembers : Bool → List (String × Json) → List Char → Prop where
  | close {first : Bool} {blank : List Char} (empty : Blank blank) :
      SpellsMembers first [] (blank ++ ['\x7d'])
  | next {first : Bool} {name : String} {value : Json} {members : List (String × Json)}
      {blank gap text rest : List Char} (empty : Blank blank) (clear : Blank gap)
      (spelled : Spells value text) (more : SpellsMembers false members rest) :
      SpellsMembers first ((name,value) :: members)
        (separator first ++ blank ++ quote name ++ ':' :: gap ++ text ++ rest)

end

@[simp]
theorem Blank.nil : Blank [] := by simp [Blank]

theorem SpellsItems.later {item : Json} {items : List Json} {text : List Char}
    (inside : SpellsItems true (item :: items) text) :
    SpellsItems false (item :: items) (',' :: text) := by
  cases inside with
  | next empty value more => exact .next empty value more

theorem SpellsMembers.later {first : String × Json} {members : List (String × Json)}
    {text : List Char} (inside : SpellsMembers true (first :: members) text) :
    SpellsMembers false (first :: members) (',' :: text) := by
  cases inside with
  | next empty clear spelled more => exact .next empty clear spelled more

mutual

theorem spells_compact : ∀ json : Json, Spells json json.compact
  | .null => .null
  | .boolean value => .boolean value
  | .number value => .number value
  | .string value => .string value
  | .array items => .array (spells_compactItems items)
  | .object members => .object (spells_compactMembers members)

theorem spells_compactItems :
    ∀ items : List Json, SpellsItems true items (compactItems items ++ [']'])
  | [] => .close .nil
  | [item] => .next .nil (spells_compact item) (.close .nil)
  | item :: second :: rest => by
    have more := (spells_compactItems (second :: rest)).later
    have whole : SpellsItems true _ _ := .next .nil (spells_compact item) more
    simpa [compactItems,separator] using whole

theorem spells_compactMembers :
    ∀ members : List (String × Json), SpellsMembers true members (compactMembers members ++ ['\x7d'])
  | [] => .close .nil
  | [(name,value)] => by
    have whole : SpellsMembers true [(name,value)] _ :=
      .next .nil .nil (spells_compact value) (.close .nil)
    simpa [compactMembers,separator] using whole
  | (name,value) :: second :: rest => by
    have more := (spells_compactMembers (second :: rest)).later
    have whole : SpellsMembers true ((name,value) :: second :: rest) _ :=
      .next .nil .nil (spells_compact value) more
    simpa [compactMembers,separator] using whole

end

theorem blank_space : Blank [' '] := by simp [Blank,isSpace]

theorem blank_newLine (depth : Nat) : Blank (newLine depth) := by
  intro c member
  rcases List.mem_cons.mp member with rfl | space
  · rfl
  · rw [List.eq_of_mem_replicate space]
    rfl

mutual

/-- New lines and indentation are blanks like any other. -/
theorem spells_pretty (depth : Nat) : ∀ json : Json, Spells json (json.pretty depth)
  | .null => .null
  | .boolean value => .boolean value
  | .number value => .number value
  | .string value => .string value
  | .array [] => .array (.close .nil)
  | .array (item :: items) => by
    have inside := spells_prettyItems (depth + 1) (item :: items) (blank_newLine depth)
    simpa [pretty] using Spells.array inside
  | .object [] => .object (.close .nil)
  | .object (member :: members) => by
    have inside := spells_prettyMembers (depth + 1) (member :: members) (blank_newLine depth)
    simpa [pretty] using Spells.object inside

theorem spells_prettyItems (depth : Nat) : ∀ (items : List Json) {blank : List Char},
    Blank blank → SpellsItems true items (prettyItems depth items ++ (blank ++ [']']))
  | [],_,empty => .close empty
  | [item],_,empty => .next (blank_newLine depth) (spells_pretty depth item) (.close empty)
  | item :: second :: rest,_,empty => by
    have more := (spells_prettyItems depth (second :: rest) empty).later
    have whole : SpellsItems true _ _ := .next (blank_newLine depth) (spells_pretty depth item) more
    simpa [prettyItems,separator] using whole

theorem spells_prettyMembers (depth : Nat) :
    ∀ (members : List (String × Json)) {blank : List Char}, Blank blank →
      SpellsMembers true members (prettyMembers depth members ++ (blank ++ ['\x7d']))
  | [],_,empty => .close empty
  | [(name,value)],_,empty => by
    have whole : SpellsMembers true [(name,value)] _ :=
      .next (blank_newLine depth) blank_space (spells_pretty depth value) (.close empty)
    simpa [prettyMembers,separator] using whole
  | (name,value) :: second :: rest,_,empty => by
    have more := (spells_prettyMembers depth (second :: rest) empty).later
    have whole : SpellsMembers true ((name,value) :: second :: rest) _ :=
      .next (blank_newLine depth) blank_space (spells_pretty depth value) more
    simpa [prettyMembers,separator] using whole

end

/-- The character that every text of a value starts with. A number has no such. -/
def opening : Json → Option Char
  | .null => some 'n'
  | .boolean true => some 't'
  | .boolean false => some 'f'
  | .number _ => none
  | .string _ => some '"'
  | .array _ => some '['
  | .object _ => some '\x7b'

theorem Spells.opens {json : Json} {text : List Char} (spelled : Spells json text) {c : Char}
    (opening : json.opening = some c) : ∃ rest, text = c :: rest := by
  cases spelled with
  | null => cases opening; exact ⟨_,rfl⟩
  | boolean value => cases value <;> (cases opening; exact ⟨_,rfl⟩)
  | number => cases opening
  | string => cases opening; exact ⟨_,rfl⟩
  | array => cases opening; exact ⟨_,rfl⟩
  | object => cases opening; exact ⟨_,rfl⟩

/-- It is not a blank and ends nothing. -/
theorem opening_solid {json : Json} {c : Char} (opening : json.opening = some c) :
    isSpace c = false ∧ c ≠ ']' := by
  cases json with
  | null => cases opening; decide
  | boolean value => cases value <;> (cases opening; decide)
  | number => cases opening
  | string => cases opening; decide
  | array => cases opening; decide
  | object => cases opening; decide

theorem SpellsItems.length_lt {first : Bool} {items : List Json} {text : List Char}
    (inside : SpellsItems first items text) (solid : ∀ item ∈ items, item.opening.isSome) :
    items.length < text.length := by
  induction items generalizing first text with
  | nil =>
    cases inside
    simp
  | cons item items ih =>
    cases inside with
    | next empty value more =>
      obtain ⟨c,opening⟩ := Option.isSome_iff_exists.mp (solid item List.mem_cons_self)
      obtain ⟨tail,rfl⟩ := value.opens opening
      have bound := ih more fun other member => solid other (List.mem_cons_of_mem _ member)
      simp only [List.length_append,List.length_cons]
      omega

theorem SpellsMembers.length_lt {first : Bool} {members : List (String × Json)} {text : List Char}
    (inside : SpellsMembers first members text) : members.length < text.length := by
  induction members generalizing first text with
  | nil =>
    cases inside
    simp
  | cons member members ih =>
    cases inside with
    | next empty clear spelled more =>
      have bound := ih more
      simp only [List.length_append,List.length_cons]
      omega

end NodeModel.Json
