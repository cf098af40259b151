import Mathlib.Data.List.Nodup
import Mathlib.Data.List.Perm.Basic
import NodeModel.Proofs.Declaration.FieldLine
import NodeModel.Proofs.Text.Tokens

/-! The grammar of field lines. A line is accepted exactly if it belongs to the grammar, and what it
declares depends on which attributes it has but not on their order. -/
namespace NodeModel.Declaration

open Text

/-- The texts of types. Three words stand for primitive types and are no names of classes. -/
inductive KindText : FieldKind → List Char → Prop where
  | text : KindText (.primitive .text) "string".toList
  | flag : KindText (.primitive .flag) "bool".toList
  | integer : KindText (.primitive .integer) "int".toList
  | single {name : String} (named : IsName name) (other : name ∉ typeWords) :
      KindText (.single name) name.toList
  | list {name : String} (named : IsName name) : KindText (.list name) ('[' :: name.toList ++ [']'])

/-- A line without the comma that may end it: what stands before the first colon, and the tokens
behind it. -/
def Divided (line before : List Char) (tokens : List (List Char)) : Prop :=
  ∃ body after, Unmarked ',' line body ∧ body = before ++ ':' :: after ∧ ':' ∉ before ∧
    Spaced tokens after

structure FieldParts where
  name : String
  kind : FieldKind
  optional : Bool
  marks : List Attribute

namespace FieldParts

/-- A line of a field: the name with blanks around it, a colon, the type with at most one
question mark, and attributes. None is repeated, and at most one is about copying. -/
structure Spells (parts : FieldParts) (line : List Char) : Prop where
  named : IsName parts.name
  distinct : parts.marks.Nodup
  oneMode : ∀ mode other, .copying mode ∈ parts.marks → .copying other ∈ parts.marks → mode = other
  divided : ∃ before type, KindText parts.kind type ∧ Padded parts.name.toList before ∧
    Divided line before ((type ++ if parts.optional then ['?'] else []) ::
      parts.marks.map Attribute.text)

structure Declares (parts : FieldParts) (doc : Option String) (field : FieldDecl) : Prop where
  name : field.name = parts.name
  kind : field.kind = parts.kind
  doc : field.doc = doc
  optional : field.policy.optional = parts.optional
  bound : field.policy.bound = false ↔ .deferred ∈ parts.marks
  visitable : field.policy.visitable = false ↔ .hidden ∈ parts.marks
  copyMode : ∀ mode, field.policy.copyMode = some mode ↔ .copying mode ∈ parts.marks

structure Alike (parts other : FieldParts) : Prop where
  name : parts.name = other.name
  kind : parts.kind = other.kind
  optional : parts.optional = other.optional
  marks : ∀ mark, mark ∈ parts.marks ↔ mark ∈ other.marks

end FieldParts

/-- Lines that differ in the order of the tokens behind the type, whatever these are. -/
def Reordered (line other : List Char) : Prop :=
  ∃ before type tokens tokens', Divided line before (type :: tokens) ∧
    Divided other before (type :: tokens') ∧ tokens.Perm tokens'

structure FollowsGrammar (read : List Char → Option String → Except Problem FieldDecl) : Prop where
  accepts : ∀ line doc, (∃ field, read line doc = .ok field) ↔ ∃ parts, FieldParts.Spells parts line
  declares : ∀ line doc parts field, FieldParts.Spells parts line → read line doc = .ok field →
    parts.Declares doc field
  alike : ∀ line line' doc parts parts', FieldParts.Spells parts line →
    FieldParts.Spells parts' line' → parts.Alike parts' → read line doc = read line' doc
  reordered : ∀ line line' doc, Reordered line line' → ∀ field,
    read line doc = .ok field ↔ read line' doc = .ok field

theorem kindText_iff {kind : FieldKind} {cs : List Char} :
    KindText kind cs ↔ kind.Expressible [] ∧ kind.written = cs := by
  constructor
  · rintro (_ | _ | _ | ⟨named,other⟩ | named)
    · exact ⟨trivial,rfl⟩
    · exact ⟨trivial,rfl⟩
    · exact ⟨trivial,rfl⟩
    · exact ⟨⟨named,List.not_mem_nil,other⟩,rfl⟩
    · exact ⟨named,rfl⟩
  · rintro ⟨ok,rfl⟩
    cases kind with
    | single target => exact .single ok.1 ok.2.2
    | list target => exact .list ok
    | primitive value =>
      cases value with
      | text => exact .text
      | flag => exact .flag
      | integer => exact .integer
      | external name => exact absurd ok.2.1 List.not_mem_nil

theorem written_of_readKind {cs : List Char} {kind : FieldKind} (read : readKind cs = .ok kind) :
    kind.written = cs := by
  unfold readKind at read
  split at read
  next same => cases read; exact String.ofList_inj.mp same.symm
  next same => cases read; exact String.ofList_inj.mp same.symm
  next same => cases read; exact String.ofList_inj.mp same.symm
  next =>
    split at read
    next inner found =>
      split at read
      next =>
        cases read
        rw [bracketed?_eq_some_iff.mp found]
        exact congrArg (fun name => '[' :: name ++ [']']) String.toList_ofList
      next => cases read
    next =>
      split at read
      next => cases read; exact String.toList_ofList
      next => cases read

theorem readKind_eq_ok_iff {cs : List Char} {kind : FieldKind} :
    readKind cs = .ok kind ↔ KindText kind cs := by
  rw [kindText_iff]
  constructor
  · exact fun read => ⟨readKind_expressible read,written_of_readKind read⟩
  · rintro ⟨ok,rfl⟩
    exact readKind_written ok

/-- No type ends in a question mark of its own. -/
theorem KindText.unmarked {kind : FieldKind} {cs : List Char} (type : KindText kind cs) :
    stripLast '?' cs = none := by
  obtain ⟨ok,rfl⟩ := kindText_iff.mp type
  refine stripLast_eq_none fun c found same => ?_
  subst same
  rcases ok.written_chars.2 _ (List.mem_of_mem_getLast? found) with word | bracket | bracket
  · exact absurd word (by decide)
  · exact absurd bracket (by decide)
  · exact absurd bracket (by decide)

theorem typeToken_iff {token : List Char} {kind : FieldKind} {optional : Bool} :
    readKind ((stripLast '?' token).getD token) = .ok kind ∧
        (stripLast '?' token).isSome = optional ↔
      ∃ type, KindText kind type ∧ token = type ++ if optional then ['?'] else [] := by
  rw [readKind_eq_ok_iff]
  constructor
  · rintro ⟨type,rfl⟩
    cases found : stripLast '?' token with
    | none =>
      rw [found] at type
      exact ⟨token,type,by simp⟩
    | some bare =>
      rw [found] at type
      exact ⟨bare,type,by simpa using stripLast_eq_some_iff.mp found⟩
  · rintro ⟨type,kind,rfl⟩
    cases optional with
    | true => simpa [stripLast_append] using kind
    | false => simpa [kind.unmarked] using kind

theorem Attribute.word_injective : Function.Injective Attribute.word := by
  intro mark other same
  have found := congrArg Attribute.ofWord? same
  rw [Attribute.ofWord?_word,Attribute.ofWord?_word] at found
  exact Option.some.inj found

theorem Attribute.word_of_ofWord? {word : String} {mark : Attribute}
    (found : Attribute.ofWord? word = some mark) : mark.word = word := by
  unfold Attribute.ofWord? at found
  split at found <;> cases found <;> rfl

/-- Only texts of attributes are read, each at most once. -/
theorem marks_of_readAttributes {seen : List String} {policy result : FieldPolicy}
    {tokens : List (List Char)} (read : readAttributes seen policy tokens = .ok result) :
    ∃ marks : List Attribute, tokens = marks.map Attribute.text ∧ marks.Nodup ∧
      ∀ mark ∈ marks, mark.word ∉ seen := by
  induction tokens generalizing seen policy with
  | nil => exact ⟨[],rfl,List.nodup_nil,by simp⟩
  | cons token tokens ih =>
    unfold readAttributes at read
    split at read
    next word =>
      simp only at read
      split at read
      next => cases read
      next fresh =>
        split at read
        next => cases read
        next mark found =>
          obtain ⟨next,_,read⟩ := bind_eq_ok_iff.mp read
          obtain ⟨marks,rfl,distinct,unseen⟩ := ih read
          have spelled := Attribute.word_of_ofWord? found
          refine ⟨mark :: marks,?_,List.nodup_cons.mpr ⟨fun again => ?_,distinct⟩,?_⟩
          · simp [Attribute.text,spelled]
          · exact unseen mark again (spelled ▸ List.mem_cons_self)
          · refine List.forall_mem_cons.mpr ⟨?_,fun other member => ?_⟩
            · simpa [spelled] using fresh
            · exact fun held => unseen other member (List.mem_cons_of_mem _ held)
    next => cases read

structure Changes (policy : FieldPolicy) (marks : List Attribute) (result : FieldPolicy) : Prop where
  optional : result.optional = policy.optional
  bound : result.bound = false ↔ policy.bound = false ∨ .deferred ∈ marks
  visitable : result.visitable = false ↔ policy.visitable = false ∨ .hidden ∈ marks
  copyMode : ∀ mode, result.copyMode = some mode ↔
    policy.copyMode = some mode ∨ .copying mode ∈ marks

theorem changes_nil (policy : FieldPolicy) : Changes policy [] policy := by
  constructor <;> simp

theorem Changes.cons {policy next result : FieldPolicy} {mark : Attribute} {marks : List Attribute}
    (first : mark.apply policy = .ok next) (rest : Changes next marks result) :
    Changes policy (mark :: marks) result := by
  cases mark with
  | deferred =>
    cases first
    exact ⟨rest.optional,by simp [rest.bound],by simp [rest.visitable],by simp [rest.copyMode]⟩
  | hidden =>
    cases first
    exact ⟨rest.optional,by simp [rest.bound],by simp [rest.visitable],by simp [rest.copyMode]⟩
  | copying mode =>
    cases earlier : policy.copyMode with
    | some other => simp [Attribute.apply,earlier] at first
    | none =>
      simp only [Attribute.apply,earlier,Except.ok.injEq] at first
      subst first
      refine ⟨rest.optional,by simp [rest.bound],by simp [rest.visitable],fun other => ?_⟩
      simp [rest.copyMode,earlier,eq_comm]

theorem changes_of_foldlM {marks : List Attribute} {policy result : FieldPolicy}
    (run : marks.foldlM Attribute.apply policy = .ok result) : Changes policy marks result := by
  induction marks generalizing policy with
  | nil =>
    cases run
    exact changes_nil _
  | cons mark marks ih =>
    rw [List.foldlM_cons] at run
    obtain ⟨next,first,run⟩ := bind_eq_ok_iff.mp run
    exact .cons first (ih run)

/-- Attributes of which at most one is about copying do not get in each other's way. -/
theorem foldlM_apply_succeeds {marks : List Attribute} {policy : FieldPolicy}
    (distinct : marks.Nodup)
    (oneMode : ∀ mode other, .copying mode ∈ marks → .copying other ∈ marks → mode = other)
    (free : ∀ mode, .copying mode ∈ marks → policy.copyMode = none) :
    ∃ result, marks.foldlM Attribute.apply policy = .ok result := by
  induction marks generalizing policy with
  | nil => exact ⟨policy,rfl⟩
  | cons mark marks ih =>
    obtain ⟨fresh,distinct'⟩ := List.nodup_cons.mp distinct
    have oneMode' := fun mode other inside inside' =>
      oneMode mode other (List.mem_cons_of_mem _ inside) (List.mem_cons_of_mem _ inside')
    cases mark with
    | deferred => exact ih distinct' oneMode' fun mode inside => free mode (.tail _ inside)
    | hidden => exact ih distinct' oneMode' fun mode inside => free mode (.tail _ inside)
    | copying mode =>
      rw [List.foldlM_cons,Attribute.apply,free mode List.mem_cons_self]
      refine ih distinct' oneMode' fun other inside => ?_
      -- A second one would be the same again.
      cases oneMode mode other List.mem_cons_self (List.mem_cons_of_mem _ inside)
      exact absurd inside fresh

theorem FieldParts.Alike.unique {parts parts' : FieldParts} {doc : Option String}
    {field field' : FieldDecl} (alike : parts.Alike parts') (declares : parts.Declares doc field)
    (declares' : parts'.Declares doc field') : field = field' := by
  have bound := Bool.coe_false_iff_false.mp
    (declares.bound.trans ((alike.marks _).trans declares'.bound.symm))
  have visitable := Bool.coe_false_iff_false.mp
    (declares.visitable.trans ((alike.marks _).trans declares'.visitable.symm))
  have copyMode : field.policy.copyMode = field'.policy.copyMode := by
    refine Option.ext fun mode => ?_
    exact (declares.copyMode mode).trans ((alike.marks _).trans (declares'.copyMode mode).symm)
  have optional := declares.optional.trans (alike.optional.trans declares'.optional.symm)
  have name := declares.name.trans (alike.name.trans declares'.name.symm)
  have kind := declares.kind.trans (alike.kind.trans declares'.kind.symm)
  have doc := declares.doc.trans declares'.doc.symm
  obtain ⟨_,_,⟨_,_,_,_⟩,_⟩ := field
  obtain ⟨_,_,⟨_,_,_,_⟩,_⟩ := field'
  simp_all

theorem FieldParts.Spells.read {parts : FieldParts} {line : List Char}
    (spells : parts.Spells line) (doc : Option String) :
    ∃ field, readField line doc = .ok field ∧ parts.Declares doc field := by
  obtain ⟨before,type,kind,padded,body,after,unmarked,rfl,first,spaced⟩ := spells.divided
  have cut : cutAt ':' (before ++ ':' :: after) = some (before,after) :=
    cutAt_eq_some_iff.mpr ⟨first,rfl⟩
  have name : trim before = parts.name.toList := padded.trim_eq spells.named.name.tight
  have named : isIdentifier parts.name.toList = true := spells.named
  obtain ⟨typed,question⟩ := (@typeToken_iff _ _ parts.optional).mpr ⟨type,kind,rfl⟩
  obtain ⟨policy,run⟩ : ∃ policy, parts.marks.foldlM Attribute.apply
      { optional := parts.optional } = .ok policy :=
    foldlM_apply_succeeds spells.distinct spells.oneMode fun _ _ => rfl
  have words : (parts.marks.map Attribute.word).Nodup :=
    List.Nodup.map Attribute.word_injective spells.distinct
  have marks := (readAttributes_texts parts.marks [] { optional := parts.optional } words
    (by simp)).trans run
  refine ⟨{ name := parts.name, kind := parts.kind, policy, doc },?_,?_⟩
  · simp only [readField,stripLast_getD_eq_iff.mpr unmarked,cut,name,named,spaced.words_eq,typed,
      question,marks,String.ofList_toList]
    rfl
  · have changes := changes_of_foldlM run
    exact ⟨rfl,rfl,rfl,changes.optional,by simpa using changes.bound,
      by simpa using changes.visitable,by simpa using changes.copyMode⟩

theorem spells_of_readField {line : List Char} {doc : Option String} {field : FieldDecl}
    (read : readField line doc = .ok field) : ∃ parts, FieldParts.Spells parts line := by
  unfold readField at read
  split at read
  next => cases read
  next before after cut =>
    obtain ⟨first,whole⟩ := cutAt_eq_some_iff.mp cut
    simp only at read
    split at read
    next => cases read
    next named =>
      split at read
      next => cases read
      next type tokens spaced =>
        obtain ⟨kind,kindRead,read⟩ := bind_eq_ok_iff.mp read
        obtain ⟨policy,policyRead,_⟩ := bind_eq_ok_iff.mp read
        obtain ⟨marks,rfl,distinct,_⟩ := marks_of_readAttributes policyRead
        obtain ⟨bare,typed,token⟩ := typeToken_iff.mp ⟨kindRead,rfl⟩
        have words : (marks.map Attribute.word).Nodup :=
          List.Nodup.map Attribute.word_injective distinct
        rw [readAttributes_texts _ _ _ words (by simp)] at policyRead
        have changes := changes_of_foldlM policyRead
        refine ⟨⟨String.ofList (trim before),kind,(stripLast '?' type).isSome,marks⟩,?_,distinct,?_,
          before,bare,typed,?_,_,after,stripLast_getD_eq_iff.mp rfl,whole,first,?_⟩
        · simpa [IsName] using named
        · intro mode other inside inside'
          have found := (changes.copyMode mode).mpr (.inr inside)
          have found' := (changes.copyMode other).mpr (.inr inside')
          exact Option.some.inj (found.symm.trans found')
        · rw [String.toList_ofList]
          exact padded_trim before
        · rw [← token]
          exact words_eq_iff.mp spaced

theorem Divided.unique {line before before' : List Char} {tokens tokens' : List (List Char)}
    (divided : Divided line before tokens) (divided' : Divided line before' tokens') :
    before = before' ∧ tokens = tokens' := by
  obtain ⟨_,after,unmarked,rfl,first,spaced⟩ := divided
  obtain ⟨_,after',unmarked',rfl,first',spaced'⟩ := divided'
  have same : before ++ ':' :: after = before' ++ ':' :: after' :=
    (stripLast_getD_eq_iff.mpr unmarked).symm.trans (stripLast_getD_eq_iff.mpr unmarked')
  have cut : some (before,after) = some (before',after') :=
    (cutAt_eq_some_iff.mpr ⟨first,rfl⟩).symm.trans (cutAt_eq_some_iff.mpr ⟨first',same⟩)
  cases cut
  exact ⟨rfl,spaced.words_eq.symm.trans spaced'.words_eq⟩

/-- Attributes are put in another order along with their tokens. -/
theorem FieldParts.Spells.reorder {parts : FieldParts} {line other : List Char}
    (spells : parts.Spells line) (reordered : Reordered line other) :
    ∃ parts', FieldParts.Spells parts' other ∧ parts.Alike parts' := by
  obtain ⟨before,token,tokens,tokens',divided,divided',perm⟩ := reordered
  obtain ⟨_,type,kind,padded,own⟩ := spells.divided
  obtain ⟨rfl,same⟩ := own.unique divided
  obtain ⟨rfl,rfl⟩ := List.cons.inj same
  -- The tokens are texts of attributes in any order.
  obtain ⟨marks,rfl,swapped⟩ :
      Relation.Comp (· = List.map Attribute.text ·) List.Perm tokens' parts.marks := by
    rw [List.eq_map_comp_perm]
    exact perm.symm
  refine ⟨{ parts with marks },⟨spells.named,swapped.nodup_iff.mpr spells.distinct,?_,_,type,kind,
    padded,divided'⟩,rfl,rfl,rfl,fun mark => swapped.mem_iff.symm⟩
  intro mode other inside inside'
  exact spells.oneMode mode other (swapped.mem_iff.mp inside) (swapped.mem_iff.mp inside')

theorem Reordered.symm {line other : List Char} (reordered : Reordered line other) :
    Reordered other line := by
  obtain ⟨before,type,tokens,tokens',divided,divided',perm⟩ := reordered
  exact ⟨before,type,tokens',tokens,divided',divided,perm.symm⟩

/-- Field lines are read by their grammar. -/
theorem readField_followsGrammar : FollowsGrammar readField := by
  have declares (line doc parts field) (spells : FieldParts.Spells parts line)
      (read : readField line doc = .ok field) : parts.Declares doc field := by
    obtain ⟨found,same,declares⟩ := spells.read doc
    rw [same] at read
    cases read
    exact declares
  have alike (line line' doc parts parts') (spells : FieldParts.Spells parts line)
      (spells' : FieldParts.Spells parts' line') (same : parts.Alike parts') :
      readField line doc = readField line' doc := by
    obtain ⟨field,read,declares⟩ := spells.read doc
    obtain ⟨field',read',declares'⟩ := spells'.read doc
    rw [read,read',same.unique declares declares']
  have carried (line line' doc field) (reordered : Reordered line line')
      (read : readField line doc = .ok field) : readField line' doc = .ok field := by
    obtain ⟨parts,spells⟩ := spells_of_readField read
    obtain ⟨parts',spells',same⟩ := spells.reorder reordered
    rw [← alike line line' doc parts parts' spells spells' same,read]
  constructor
  case accepts =>
    intro line doc
    constructor
    · rintro ⟨field,read⟩
      exact spells_of_readField read
    · rintro ⟨parts,spells⟩
      obtain ⟨field,read,_⟩ := spells.read doc
      exact ⟨field,read⟩
  case declares => exact declares
  case alike => exact alike
  case reordered =>
    exact fun line line' doc reordered field =>
      ⟨carried line line' doc field reordered,carried line' line doc field reordered.symm⟩

/-- A line with blanks wherever they may be. -/
theorem readField_followsGrammar_spaced : ∃ parts field,
    FieldParts.Spells parts " kids :[Node]?  @hidden @deep ,".toList ∧
    readField " kids :[Node]?  @hidden @deep ,".toList none = .ok field ∧
    parts.Declares none field := by
  obtain ⟨accepts,declares,_,_⟩ := readField_followsGrammar
  obtain ⟨parts,spells⟩ := (accepts " kids :[Node]?  @hidden @deep ,".toList none).mp ⟨_,rfl⟩
  exact ⟨parts,_,spells,rfl,declares _ _ _ _ spells rfl⟩

end NodeModel.Declaration
