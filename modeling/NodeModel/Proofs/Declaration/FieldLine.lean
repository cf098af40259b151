import NodeModel.Proofs.Declaration.Canonical
import NodeModel.Proofs.Outcome
import NodeModel.Proofs.Text.Pieces

/-! Field lines: the canonical line of a field is read as the field, and what is read from any line
can be expressed. -/
namespace NodeModel

open Text

variable {externals : List String}

theorem IsName.name {name : String} (ok : IsName name) : Name name.toList := .of_isIdentifier ok

namespace Declaration

theorem bracketed?_eq_some_iff {cs inner : List Char} :
    bracketed? cs = some inner ↔ cs = '[' :: inner ++ [']'] := by
  unfold bracketed?
  split
  next rest =>
    constructor
    · intro found
      rw [stripLast] at found
      split at found
      next last =>
        cases found
        simp [List.dropLast_append_getLast? _ last]
      next => cases found
    · intro same
      obtain rfl : rest = inner ++ [']'] := by simpa using same
      exact stripLast_append
  next other =>
    simp only [reduceCtorEq,false_iff]
    rintro rfl
    exact other _ rfl

theorem readKind_single {name : String} (ok : IsName name) (word : name ∉ typeWords) :
    readKind name.toList = .ok (.single name) := by
  have none : bracketed? name.toList = none := by
    cases inner : bracketed? name.toList with
    | none => rfl
    | some inner =>
      have bracket : '[' ∈ name.toList := by simp [bracketed?_eq_some_iff.mp inner]
      exact absurd bracket (ok.name.free rfl)
  simp only [typeWords,List.mem_cons,List.not_mem_nil,or_false,not_or] at word
  unfold readKind
  rw [String.ofList_toList]
  split
  next same => exact absurd rfl word.1
  next same => exact absurd rfl word.2.1
  next same => exact absurd rfl word.2.2
  next => rw [none]; exact if_pos ok

theorem readKind_list {name : String} (ok : IsName name) :
    readKind ('[' :: name.toList ++ [']']) = .ok (.list name) := by
  have inner : bracketed? ('[' :: name.toList ++ [']']) = some name.toList :=
    bracketed?_eq_some_iff.mpr rfl
  have head (word : String) (c : Char) (start : word.toList.head? = some c) (other : c ≠ '[') :
      String.ofList ('[' :: name.toList ++ [']']) ≠ word := by
    rintro rfl
    exact other (by simpa using start.symm)
  unfold readKind
  split
  next same => exact absurd same (head _ 's' rfl (by decide))
  next same => exact absurd same (head _ 'b' rfl (by decide))
  next same => exact absurd same (head _ 'i' rfl (by decide))
  next =>
    rw [inner]
    simp only [String.ofList_toList]
    exact if_pos ok

theorem readKind_written {kind : FieldKind} (ok : kind.Expressible []) :
    readKind kind.written = .ok kind := by
  cases kind with
  | single target => exact readKind_single ok.1 ok.2.2
  | list target => exact readKind_list ok
  | primitive value =>
    cases value with
    | external name => exact absurd ok.2.1 List.not_mem_nil
    | _ => rfl

theorem readKind_expressible {cs : List Char} {kind : FieldKind}
    (read : readKind cs = .ok kind) : kind.Expressible [] := by
  unfold readKind at read
  split at read
  next => cases read; trivial
  next => cases read; trivial
  next => cases read; trivial
  next notText notFlag notInteger =>
    split at read
    next inner _ =>
      split at read
      next name =>
        cases read
        simpa [FieldKind.Expressible,IsName] using name
      next => cases read
    next =>
      split at read
      next name =>
        cases read
        refine ⟨by simpa [IsName] using name,List.not_mem_nil,?_⟩
        simp only [typeWords,List.mem_cons,List.not_mem_nil,or_false,not_or]
        exact ⟨notText,notFlag,notInteger⟩
      next => cases read

theorem Attribute.ofWord?_word (mark : Attribute) : Attribute.ofWord? mark.word = some mark := by
  cases mark with
  | copying mode => cases mode <;> rfl
  | _ => rfl

/-- Distinct attributes are applied one after another. -/
theorem readAttributes_texts (marks : List Attribute) (seen : List String) (policy : FieldPolicy)
    (distinct : (marks.map Attribute.word).Nodup) (fresh : ∀ mark ∈ marks, mark.word ∉ seen) :
    readAttributes seen policy (marks.map Attribute.text) =
      marks.foldlM Attribute.apply policy := by
  induction marks generalizing seen policy with
  | nil => rfl
  | cons mark marks ih =>
    rw [List.map_cons,List.nodup_cons] at distinct
    have unseen : seen.contains mark.word = false := by
      simpa using fresh mark List.mem_cons_self
    rw [List.map_cons,Attribute.text,readAttributes,List.foldlM_cons]
    simp only [String.ofList_toList,unseen,Bool.false_eq_true,if_false,Attribute.ofWord?_word]
    refine bind_congr fun next => ih _ _ distinct.2 fun other member => ?_
    rw [List.mem_cons,not_or]
    refine ⟨fun same => distinct.1 ?_,fresh other (List.mem_cons_of_mem _ member)⟩
    exact same ▸ List.mem_map_of_mem member

end Declaration

open Declaration

theorem FieldPolicy.attributes_distinct (policy : FieldPolicy) :
    (policy.attributes.map Attribute.word).Nodup := by
  obtain ⟨optional,bound,visitable,copyMode⟩ := policy
  cases bound <;> cases visitable <;> rcases copyMode with _ | (_ | _ | _ | _) <;>
    simp [FieldPolicy.attributes,Attribute.word,CopyMode.label]

/-- The attributes of a policy make up the policy. -/
theorem FieldPolicy.attributes_apply (policy : FieldPolicy) :
    policy.attributes.foldlM Attribute.apply { optional := policy.optional } = .ok policy := by
  obtain ⟨optional,bound,visitable,copyMode⟩ := policy
  cases bound <;> cases visitable <;> cases copyMode <;> rfl

theorem FieldKind.Expressible.written_shape {kind : FieldKind} (ok : kind.Expressible externals) :
    Name kind.written ∨ ∃ inner, Name inner ∧ kind.written = '[' :: inner ++ [']'] := by
  cases kind with
  | single target => exact .inl ok.1.name
  | list target => exact .inr ⟨_,ok.name,rfl⟩
  | primitive value =>
    cases value with
    | external name => exact .inl ok.1.name
    | text => exact .inl (.of_isIdentifier (by decide))
    | flag => exact .inl (.of_isIdentifier (by decide))
    | integer => exact .inl (.of_isIdentifier (by decide))

theorem FieldKind.Expressible.written_chars {kind : FieldKind} (ok : kind.Expressible externals) :
    kind.written ≠ [] ∧ ∀ c ∈ kind.written, isWordChar c = true ∨ c = '[' ∨ c = ']' := by
  rcases ok.written_shape with name | ⟨inner,name,same⟩
  · exact ⟨name.ne_nil,fun c member => .inl (name.wordChars c member)⟩
  · rw [same]
    refine ⟨by simp,fun c member => ?_⟩
    simp only [List.cons_append,List.mem_cons,List.mem_append,List.not_mem_nil,or_false] at member
    rcases member with rfl | inside | rfl
    · simp
    · exact .inl (name.wordChars c inside)
    · simp

theorem FieldDecl.Expressible.stripLast_typeText {field : FieldDecl}
    (ok : field.Expressible externals) :
    (stripLast '?' field.typeText).isSome = field.policy.optional ∧
      (stripLast '?' field.typeText).getD field.typeText = field.kind.written := by
  unfold FieldDecl.typeText
  cases field.policy.optional with
  | true => simp [stripLast_append]
  | false =>
    have bare : stripLast '?' field.kind.written = none := by
      refine stripLast_eq_none fun c found same => ?_
      subst same
      rcases ok.kind.written_chars.2 _ (List.mem_of_mem_getLast? found) with word | other | other
      · exact absurd word (by decide)
      · exact absurd other (by decide)
      · exact absurd other (by decide)
    simp [bare]

namespace Declaration

def parts (field : FieldDecl) : List (List Char) :=
  field.typeText :: field.policy.attributes.map Attribute.text

theorem text_eq_parts (field : FieldDecl) :
    field.text = field.name.toList ++ ':' :: (parts field).flatMap (' ' :: ·) := by
  simp [FieldDecl.text,parts,List.flatMap_map]

theorem parts_chars {field : FieldDecl} (ok : field.Expressible externals) {part : List Char}
    (member : part ∈ parts field) :
    part ≠ [] ∧ ∀ c ∈ part, isWordChar c = true ∨ c ∈ ['[',']','?','@'] := by
  rcases List.mem_cons.mp member with rfl | later
  · obtain ⟨some,chars⟩ := ok.kind.written_chars
    refine ⟨by simp [FieldDecl.typeText,some],fun c inside => ?_⟩
    rcases List.mem_append.mp inside with inside | mark
    · rcases chars c inside with word | bracket | bracket <;> simp [*]
    · split at mark
      · simp_all
      · cases mark
  · obtain ⟨mark,_,rfl⟩ := List.mem_map.mp later
    cases mark with
    | copying mode =>
      cases mode <;> exact ⟨List.cons_ne_nil _ _,List.all_iff_forall_prop.mp (by decide)⟩
    | _ => exact ⟨List.cons_ne_nil _ _,List.all_iff_forall_prop.mp (by decide)⟩

theorem parts_free {field : FieldDecl} (ok : field.Expressible externals) {part : List Char}
    (member : part ∈ parts field) : ∀ c ∈ part, isBlank c = false := by
  intro c inside
  rcases (parts_chars ok member).2 c inside with word | mark
  · exact not_blank_of_wordChar word
  · have marks : ∀ d ∈ ['[',']','?','@'], isBlank d = false :=
      List.all_iff_forall_prop.mp (by decide)
    exact marks c mark

theorem words_parts {field : FieldDecl} (ok : field.Expressible externals) :
    words ((parts field).flatMap (' ' :: ·)) = parts field :=
  words_spaced _ (fun _ member => (parts_chars ok member).1) fun _ member => parts_free ok member

theorem fieldText_chars {field : FieldDecl} (ok : field.Expressible externals) :
    ∀ c ∈ field.text, isWordChar c = true ∨ c ∈ [':',' ','[',']','?','@'] := by
  intro c member
  rw [text_eq_parts,List.mem_append,List.mem_cons,List.mem_flatMap] at member
  rcases member with name | rfl | ⟨part,listed,inside⟩
  · exact .inl (ok.name.name.wordChars c name)
  · simp
  · rcases List.mem_cons.mp inside with rfl | inside
    · simp
    · exact ((parts_chars ok listed).2 c inside).imp_right fun mark => by simp at mark ⊢; tauto

theorem fieldText_tight {field : FieldDecl} (ok : field.Expressible externals) :
    Tight field.text := by
  have name : Tight (field.name.toList ++ [] ++ [':']) :=
    ok.name.name.tight.join (.of_ends (by decide)) ok.name.name.ne_nil (by decide)
  have whole := name.append_spaced (by simp) (parts field) fun part member =>
    ⟨(parts_chars ok member).1,tight_of_free (parts_free ok member)⟩
  simpa [text_eq_parts] using whole

/-- The line of a field is read as the field. -/
theorem readField_text {field : FieldDecl} (ok : field.Expressible []) :
    readField field.text field.doc = .ok field := by
  have noComma : stripLast ',' field.text = none :=
    stripLast_eq_none fun c found same => by
      subst same
      exact (fieldText_chars ok _ (List.mem_of_mem_getLast? found)).elim (absurd · (by decide))
        (absurd · (by decide))
  have cut : cutAt ':' field.text = some (field.name.toList,(parts field).flatMap (' ' :: ·)) :=
    cutAt_eq_some_iff.mpr ⟨ok.name.name.free rfl,text_eq_parts field⟩
  have split : words ((parts field).flatMap (' ' :: ·)) =
      field.typeText :: field.policy.attributes.map Attribute.text := words_parts ok
  have marks : readAttributes [] { optional := field.policy.optional }
      (field.policy.attributes.map Attribute.text) = .ok field.policy :=
    (readAttributes_texts _ _ _ field.policy.attributes_distinct (by simp)).trans
      field.policy.attributes_apply
  have typed := ok.stripLast_typeText
  have named : isIdentifier field.name.toList = true := ok.name
  simp only [readField,noComma,Option.getD_none,cut,ok.name.name.tight.trim_eq,named,Bool.not_true,
    Bool.false_eq_true,if_false,split,typed.1,typed.2,readKind_written ok.kind,marks,
    String.ofList_toList]
  rfl

/-- Whatever is read from a line can be expressed. -/
theorem readField_expressible {line : List Char} {doc : Option String} {field : FieldDecl}
    (documented : Documented doc) (read : readField line doc = .ok field) :
    field.Expressible [] := by
  unfold readField at read
  split at read
  next => cases read
  next before after _ =>
    simp only at read
    split at read
    next => cases read
    next named =>
      split at read
      next => cases read
      next type marks _ =>
        obtain ⟨kind,kindRead,read⟩ := bind_eq_ok_iff.mp read
        obtain ⟨policy,_,read⟩ := bind_eq_ok_iff.mp read
        cases read
        exact ⟨by simpa [IsName] using named,readKind_expressible kindRead,documented⟩

end Declaration

end NodeModel
