import Mathlib.Data.List.Nodup
import NodeModel.Json.Shape
import NodeModel.Proofs.Json.Spelling
import NodeModel.Proofs.Lookup

/-! What the readers of the several shapes make of a text. A reader reads a value if it does so from
every text of the value and leaves alone what follows. -/
namespace NodeModel.Json

variable {α β : Type} {blank text rest : List Char}

structure Reads (read : Reader α) (json : Json) (value : α) : Prop where
  solid : json.opening.isSome
  reads : ∀ {blank text : List Char} (rest : List Char), Blank blank → Spells json text →
    read (blank ++ text ++ rest) = .ok (value,rest)

theorem skipSpace_blank (empty : Blank blank) (cs : List Char) :
    skipSpace (blank ++ cs) = skipSpace cs :=
  List.dropWhile_append_of_pos empty

theorem skipSpace_solid {c : Char} (solid : isSpace c = false) (cs : List Char) :
    skipSpace (c :: cs) = c :: cs := by
  simp [skipSpace,solid]

/-- Blanks before a solid character are passed over. -/
theorem skipSpace_at {c : Char} (solid : isSpace c = false) (empty : Blank blank)
    (tail rest : List Char) : skipSpace (blank ++ c :: tail ++ rest) = c :: (tail ++ rest) := by
  rw [List.append_assoc,skipSpace_blank empty]
  exact skipSpace_solid solid _

theorem skipSpace_quote (empty : Blank blank) (name : String) (rest : List Char) :
    skipSpace (blank ++ quote name ++ rest) =
      '"' :: (name.toList.flatMap escapeChar ++ '"' :: rest) := by
  have here := skipSpace_at (show isSpace '"' = false by decide) empty
    (name.toList.flatMap escapeChar ++ ['"']) rest
  rwa [List.append_assoc _ ['"'] rest] at here

theorem nextItem_close (first : Bool) (empty : Blank blank) (rest : List Char) :
    nextItem first (blank ++ [']'] ++ rest) = .ok (false,rest) := by
  have bracket : skipSpace (blank ++ [']'] ++ rest) = ']' :: rest :=
    skipSpace_at (by decide) empty [] rest
  simp only [nextItem,bracket]

theorem nextItem_next {item : Json} {c : Char} (first : Bool) (empty : Blank blank)
    (spelled : Spells item text) (opening : item.opening = some c) (rest : List Char) :
    nextItem first (separator first ++ blank ++ text ++ rest) = .ok (true,text ++ rest) := by
  obtain ⟨tail,rfl⟩ := spelled.opens opening
  obtain ⟨solid,open'⟩ := opening_solid opening
  have here : skipSpace (blank ++ (c :: tail ++ rest)) = c :: (tail ++ rest) := by
    rw [skipSpace_blank empty]
    exact skipSpace_solid solid _
  cases first with
  | true => simp_all [nextItem,separator]
  | false =>
    have comma (cs : List Char) : skipSpace (',' :: cs) = ',' :: cs := skipSpace_solid (by decide) cs
    simp_all [nextItem,separator]

theorem nextKey_close (first : Bool) (empty : Blank blank) (rest : List Char) :
    nextKey first (blank ++ ['\x7d'] ++ rest) = .ok (false,rest) := by
  have brace : skipSpace (blank ++ ['\x7d'] ++ rest) = '\x7d' :: rest :=
    skipSpace_at (by decide) empty [] rest
  simp only [nextKey,brace]

theorem nextKey_next (first : Bool) (empty : Blank blank) (name : String) (rest : List Char) :
    nextKey first (separator first ++ (blank ++ quote name ++ rest)) =
      .ok (true,name.toList.flatMap escapeChar ++ '"' :: rest) := by
  have here := skipSpace_quote empty name rest
  cases first with
  | true => simp only [nextKey,separator,if_true,List.nil_append,here]
  | false =>
    have comma (cs : List Char) : skipSpace (',' :: cs) = ',' :: cs := skipSpace_solid (by decide) cs
    simp only [nextKey,separator,Bool.false_eq_true,if_false,List.cons_append,List.nil_append,comma,
      here]

theorem reads_text (value : String) : Reads Json.text (.string value) value where
  solid := rfl
  reads := by
    intro blank text rest empty spelled
    cases spelled
    simp only [Json.text,skipSpace_quote empty]
    exact readString_quoted value rest

theorem reads_flag (value : Bool) : Reads flag (.boolean value) value where
  solid := by cases value <;> rfl
  reads := by
    intro blank text rest empty spelled
    cases spelled
    cases value with
    | true =>
      have here : skipSpace (blank ++ literal true ++ rest) = 't' :: 'r' :: 'u' :: 'e' :: rest :=
        skipSpace_at (by decide) empty _ rest
      simp only [flag,here]
      rfl
    | false =>
      have here : skipSpace (blank ++ literal false ++ rest) =
          'f' :: 'a' :: 'l' :: 's' :: 'e' :: rest := skipSpace_at (by decide) empty _ rest
      simp only [flag,here]
      rfl

/-- Where any value may stand, a string is kept as it is. -/
theorem reads_anyText (room : Nat) (value : String) :
    Reads (any room) (.string value) (.string value) where
  solid := rfl
  reads := by
    intro blank text rest empty spelled
    cases spelled
    simp only [any,anyValue,skipSpace_quote empty,readString_quoted,bind,Except.bind]

theorem Reads.some {read : Reader α} {json : Json} {value : α} (inner : Reads read json value)
    (present : json ≠ .null) : Reads (optional read) json (some value) where
  solid := inner.solid
  reads := by
    intro blank text rest empty spelled
    obtain ⟨c,opening⟩ := Option.isSome_iff_exists.mp inner.solid
    have letter : c ≠ 'n' := by
      rintro rfl
      cases json with
      | null => exact present rfl
      | boolean value => cases value <;> cases opening
      | _ => cases opening
    have plain := inner.reads rest .nil spelled
    obtain ⟨tail,rfl⟩ := spelled.opens opening
    have here := skipSpace_at (opening_solid opening).1 empty tail rest
    simp only [List.nil_append,List.cons_append] at plain
    simp only [optional,here]
    split
    next same => exact absurd (List.cons.inj same).1 letter
    next => rw [plain]; rfl

theorem items_eq {read : Reader α} {write : α → Json} {values : List α} {first : Bool}
    (each : ∀ value ∈ values, Reads read (write value) value) (fuel : Nat)
    (enough : values.length < fuel) (inside : SpellsItems first (values.map write) text)
    (rest : List Char) : items read fuel first (text ++ rest) = .ok (values,rest) := by
  induction values generalizing fuel first text with
  | nil =>
    cases inside with
    | close empty =>
      cases fuel with
      | zero => simp at enough
      | succ fuel =>
        rw [items,nextItem_close first empty]
        rfl
  | cons value values ih =>
    cases inside with
    | @next _ _ _ blank spelling tail empty spelled more =>
      cases fuel with
      | zero => simp at enough
      | succ fuel =>
        have here := each value List.mem_cons_self
        obtain ⟨c,opening⟩ := Option.isSome_iff_exists.mp here.solid
        have later := ih (fun other member => each other (List.mem_cons_of_mem _ member)) fuel
          (by simpa using enough) more
        have one := here.reads (tail ++ rest) .nil spelled
        rw [items,List.append_assoc,nextItem_next first empty spelled opening]
        simp only [List.nil_append] at one
        simp only [bind,Except.bind,if_true,one,later]

theorem reads_list {read : Reader α} {write : α → Json} {values : List α}
    (each : ∀ value ∈ values, Reads read (write value) value) :
    Reads (list read) (.array (values.map write)) values where
  solid := rfl
  reads := by
    intro blank text rest empty spelled
    cases spelled with
    | @array _ text inside =>
      have here := skipSpace_at (show isSpace '[' = false by decide) empty text rest
      have solid : ∀ item ∈ values.map write, item.opening.isSome := by
        rw [List.forall_mem_map]
        exact fun value member => (each value member).solid
      have bound := inside.length_lt solid
      rw [List.length_map] at bound
      simp only [list,here]
      exact items_eq each _ (by simp; omega) inside rest

theorem afterColon_colon (cs : List Char) : afterColon (':' :: cs) = .ok cs := by
  simp only [afterColon,skipSpace_solid (show isSpace ':' = false by decide)]

theorem reads_name {known : List (Variant α)} {name : String} {value : α}
    (found : known.find? (·.name == name) = some ⟨name,.none value⟩) :
    Reads (choice known) (.string name) value where
  solid := rfl
  reads := by
    intro blank text rest empty spelled
    cases spelled
    simp only [choice,skipSpace_quote empty,readString_quoted,variant,found,bind,Except.bind]

theorem reads_variant {known : List (Variant α)} {name : String} {read : Reader α} {json : Json}
    {value : α} (found : known.find? (·.name == name) = some ⟨name,.one read⟩)
    (inner : Reads read json value) : Reads (choice known) (.object [(name,json)]) value where
  solid := rfl
  reads := by
    intro blank text rest empty spelled
    cases spelled with
    | object inside =>
      cases inside with
      | @next _ _ _ _ blank' gap text _ empty' clear spelled more =>
        cases more with
        | @close _ blank'' empty'' =>
          have brace : skipSpace (blank'' ++ ['\x7d'] ++ rest) = '\x7d' :: rest :=
            skipSpace_at (by decide) empty'' [] rest
          have payload := inner.reads (blank'' ++ ['\x7d'] ++ rest) clear spelled
          have opened := skipSpace_at (show isSpace '\x7b' = false by decide) empty
          have shape : separator true ++ blank' ++ quote name ++ ':' :: gap ++ text ++
              (blank'' ++ ['\x7d']) ++ rest =
              blank' ++ quote name ++ ':' :: (gap ++ text ++ (blank'' ++ ['\x7d'] ++ rest)) := by
            simp [separator]
          simp only [choice,opened,shape,skipSpace_quote empty',readString_quoted,variant,found,
            afterColon_colon,payload,brace,bind,Except.bind]

/-- From every text of `json` the member is stored so that `before` becomes `after`. -/
def Member.Takes (member : Member α) (before : α) (json : Json) (after : α) : Prop :=
  ∀ {blank text : List Char} (rest : List Char), Blank blank → Spells json text →
    member.store before (blank ++ text ++ rest) = .ok (after,rest)

/-- Written members in the order of the known ones, of which only those that are not required may
be left out, and what they make of a record. -/
inductive Fills : List (Member α) → α → List (String × Json) → α → Prop where
  | done {record : α} : Fills [] record [] record
  | put {member : Member α} {known : List (Member α)} {json : Json} {before middle after : α}
      {written : List (String × Json)} (taken : member.Takes before json middle)
      (more : Fills known middle written after) :
      Fills (member :: known) before ((member.name,json) :: written) after
  | leave {member : Member α} {known : List (Member α)} {before after : α}
      {written : List (String × Json)} (spare : member.required = false)
      (more : Fills known before written after) : Fills (member :: known) before written after

/-- What is required has been written. -/
theorem Fills.required_written {known : List (Member α)} {before after : α}
    {written : List (String × Json)} (fills : Fills known before written after) {member : Member α}
    (inside : member ∈ known) (required : member.required = true) :
    member.name ∈ written.map (·.1) := by
  induction fills with
  | done => simp at inside
  | put _ _ ih =>
    rcases List.mem_cons.mp inside with rfl | later
    · simp
    · exact List.mem_cons_of_mem _ (ih later)
  | leave spare _ ih =>
    rcases List.mem_cons.mp inside with rfl | later
    · simp [spare] at required
    · exact ih later

/-- The first member of a name is the only one. -/
theorem find?_member {known : List (Member α)} (distinct : (known.map (·.name)).Nodup)
    {member : Member α} (inside : member ∈ known) :
    known.find? (·.name == member.name) = some member :=
  find?_of_mem (·.name) inside fun _ other => List.inj_on_of_nodup_map distinct other inside

/-- Members are taken one after the other, each once. -/
theorem members_eq {known all : List (Member α)} {before after : α}
    {written : List (String × Json)} (fills : Fills known before written after)
    (distinct : (all.map (·.name)).Nodup) (part : known.Sublist all) (seen : List String)
    (fresh : ∀ name ∈ seen, name ∉ known.map (·.name)) (first : Bool) (fuel : Nat)
    (enough : written.length < fuel) (inside : SpellsMembers first written text)
    (rest : List Char) :
    members all fuel first seen before (text ++ rest) =
      .ok (((written.map (·.1)).reverse ++ seen,after),rest) := by
  -- The members still to come are none of those seen, so no key counts as a duplicate.
  induction fills generalizing seen first fuel text with
  | done =>
    cases inside with
    | close empty =>
      cases fuel with
      | zero => simp at enough
      | succ fuel =>
        rw [members,nextKey_close first empty]
        rfl
  | @put member known json before middle after written taken more ih =>
    cases inside with
    | @next _ _ _ _ blank gap text tail empty clear spelled later =>
      cases fuel with
      | zero => simp at enough
      | succ fuel =>
        have names := distinct.sublist (part.map (·.name))
        rw [List.map_cons,List.nodup_cons] at names
        have shape : separator first ++ blank ++ quote member.name ++ ':' :: gap ++ text ++ tail ++
            rest = separator first ++
              (blank ++ quote member.name ++ ':' :: (gap ++ text ++ (tail ++ rest))) := by
          simp
        have found := find?_member distinct (part.subset List.mem_cons_self)
        have unseen : seen.contains member.name = false := by
          rw [List.contains_eq_mem,decide_eq_false_iff_not]
          exact fun again => fresh _ again (by simp)
        have stored := taken (tail ++ rest) clear spelled
        have others := ih ((List.sublist_cons_self _ _).trans part) (member.name :: seen)
          (by
            intro name again held
            rcases List.mem_cons.mp again with rfl | earlier
            · exact names.1 held
            · exact fresh name earlier (List.mem_cons_of_mem _ held))
          false fuel (by simpa using enough) later
        rw [members,shape,nextKey_next first empty]
        simp only [bind,Except.bind,if_true,readString_quoted,found,unseen,afterColon_colon,stored,
          others]
        simp
  | leave _ _ ih =>
    refine ih ((List.sublist_cons_self _ _).trans part) seen ?_ first fuel enough inside
    intro name again held
    exact fresh name again (List.mem_cons_of_mem _ held)

/-- A record is read back from its members, in whatever way they are spelled. -/
theorem reads_record {known : List (Member α)} {blank value : α} {written : List (String × Json)}
    (title : String) (distinct : (known.map (·.name)).Nodup)
    (fills : Fills known blank written value) :
    Reads (record title blank known) (.object written) value where
  solid := rfl
  reads := by
    intro space text rest empty spelled
    cases spelled with
    | @object _ text inside =>
      have opened := skipSpace_at (show isSpace '\x7b' = false by decide) empty text rest
      have bound := inside.length_lt
      have taken := members_eq fills distinct (List.Sublist.refl _) [] (by simp) true
        ((text ++ rest).length + 1) (by simp; omega) inside rest
      have complete : known.find? (fun member =>
          member.required && !((written.map Prod.fst).reverse ++ []).contains member.name) = none := by
        rw [List.find?_eq_none]
        intro member known
        by_cases required : member.required = true
        · simpa using fun _ => fills.required_written known required
        · simp [required]
      simp only [record,opened,taken,complete,bind,Except.bind]

section Written

variable {known : List (Member α)} {before after : α} {written : List (String × Json)}
  {name : String} {read : Reader β} {set : α → β → α}

theorem takes_needed (name : String) {json : Json} {value : β} (reads : Reads read json value) :
    (needed name read set).Takes before json (set before value) := by
  intro blank text rest empty spelled
  simp only [needed,reads.reads rest empty spelled,bind,Except.bind]

theorem Fills.needed {json : Json} {value : β} (reads : Reads read json value)
    (more : Fills known (set before value) written after) :
    Fills (needed name read set :: known) before ((name,json) :: written) after :=
  .put (takes_needed name reads) more

theorem Fills.spare {json : Json} {value : β} (reads : Reads read json value)
    (more : Fills known (set before value) written after) :
    Fills (spare name read set :: known) before ((name,json) :: written) after :=
  .put (takes_needed name reads) more

end Written

end NodeModel.Json
