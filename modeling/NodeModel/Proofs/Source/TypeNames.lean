import Mathlib.Data.List.DropRight
import NodeModel.Proofs.Declaration.RoundTrip
import NodeModel.Proofs.Source.Closure
import NodeModel.Proofs.Source.Spelling

/-! The types of an emitted file, read off its first column: those that imports bring in, and those
that are declared. A class takes its name and a category one more, so two of them can have one
name. -/
namespace NodeModel.Source

open Text

/-- The names at the end of the path of an import. -/
def importNames (path : List Char) : List String :=
  (commaList ((path.rtakeWhile (· != ':')).filter fun c =>
    isWordChar c || c == ',' || c == ' ')).map String.ofList

def nameBehind? (start line : String) : Option String :=
  (stripStart start.toList line.toList).map fun rest => String.ofList (rest.takeWhile isWordChar)

def declarers : List String := ["pub struct ","pub enum ","pub trait "]

def typeNames (line : String) : List String :=
  ((stripStart "use ".toList line.toList).map importNames).getD [] ++
    declarers.filterMap (nameBehind? · line)

/-- The type that a line makes viewable as a node. -/
def viewName? (line : String) : Option String := nameBehind? "impl AsNodeRef for " line

/-- All types of a file. -/
def typeNamesOf (lines : List String) : List String := (outline lines).flatMap typeNames

def viewNamesOf (lines : List String) : List String := (outline lines).filterMap viewName?

/-- The names that a file uses for itself, some of them only if a field asks for what they stand
for. -/
def takenNames (model : Model) : List String :=
  let fields := model.classes.flatMap (·.fields)
  let onDemand (name : String) (asks : Model.Field → Bool) := if fields.any asks then [name] else []
  onDemand "OnceCell" (!·.policy.bound) ++ ["fmt"] ++
    onDemand "Rc" (fun field => field.kind.isReference || field.kind.external?.isSome) ++
    onDemand "Weak" isWeak ++ ["AlreadyAssigned"] ++
    onDemand "ExternalCopy" (·.policy.copyMode == .external) ++ ["AsNodeRef","NodeRef"]

/-- No two types of the file have one name: neither classes nor external types have one that the
file takes, and the enum of a category has that of no class or external type. -/
structure Apart (model : Model) : Prop where
  externals : ∀ name ∈ model.externals, name ∉ takenNames model
  classes : ∀ cls ∈ model.classes, cls.name ∉ takenNames model ∧ cls.name ∉ model.externals
  families : ∀ category ∈ model.categories, "Any" ++ category.name ∉ model.externals ∧
    ∀ cls ∈ model.classes, cls.name ≠ "Any" ++ category.name

structure Spelled (model : Model) : Prop where
  classes : ∀ cls ∈ model.classes, IsName cls.name
  externals : ∀ name ∈ model.externals, IsName name

/-- The types of a file and those with a view, one for each class and one more for each category. -/
structure Typed (model : Model) (lines : List String) : Prop where
  types : (typeNamesOf lines).Perm (takenNames model ++ model.externals ++
    model.classes.map (·.name) ++ model.categories.map ("Any" ++ ·.name))
  views : viewNamesOf lines = model.leaves.map (·.name) ++ model.categories.map ("Any" ++ ·.name)
  typesApart : (typeNamesOf lines).Nodup ↔ Apart model
  viewsApart : (viewNamesOf lines).Nodup ↔
    ∀ leaf ∈ model.leaves, ∀ category ∈ model.categories, leaf.name ≠ "Any" ++ category.name

theorem rtakeWhile_behind {mark : Char} {cs : List Char} (before : List Char) (free : mark ∉ cs) :
    (before ++ mark :: cs).rtakeWhile (· != mark) = cs := by
  have split : before ++ mark :: cs = (cs.reverse ++ mark :: before.reverse).reverse := by simp
  rw [split,List.rtakeWhile_reverse,takeWhile_until (by simpa using free),List.reverse_reverse]

/-- An import that ends in a list of names in braces. -/
theorem importNames_list {names : List String} (some : names ≠ [])
    (named : ∀ name ∈ names, IsName name) (before : List Char) :
    importNames (before ++ "::\x7b".toList ++ Declaration.nameList names ++ "\x7d;".toList) =
      names := by
  have chars := Declaration.nameList_chars named
  have split : before ++ "::\x7b".toList ++ Declaration.nameList names ++ "\x7d;".toList =
      (before ++ [':']) ++ ':' :: ('\x7b' :: Declaration.nameList names ++ "\x7d;".toList) := by
    simp
  have free : ':' ∉ '\x7b' :: Declaration.nameList names ++ "\x7d;".toList := by
    intro inside
    have listed : ':' ∈ Declaration.nameList names := by simpa using inside
    exact absurd (chars ':' listed) (by decide)
  have kept : ('\x7b' :: Declaration.nameList names ++ "\x7d;".toList).filter
      (fun c => isWordChar c || c == ',' || c == ' ') = Declaration.nameList names := by
    have all : (Declaration.nameList names).filter
        (fun c => isWordChar c || c == ',' || c == ' ') = Declaration.nameList names :=
      List.filter_eq_self.mpr fun c inside => by simpa [or_assoc] using chars c inside
    rw [List.cons_append,List.filter_cons_of_neg (by decide),List.filter_append,all]
    exact List.append_nil _
  have read : commaList (", ".toList.intercalate (names.map String.toList)) =
      names.map String.toList :=
    commaList_names (by simpa using some)
      (List.forall_mem_map.mpr fun name inside => (named name inside).name)
  unfold importNames
  rw [split,rtakeWhile_behind _ free,kept,Declaration.nameList,read,List.map_map]
  exact (List.map_congr_left fun name _ => String.ofList_toList).trans (List.map_id _)

theorem toList_intercalate (names : List String) :
    (", ".intercalate names).toList = Declaration.nameList names := by
  simp [Declaration.nameList]

theorem IsWord.of_isName {name : String} (named : IsName name) : IsWord name :=
  List.all_eq_true.mpr named.name.wordChars

theorem nameBehind?_opening (start : String) {name : String} (word : IsWord name) :
    nameBehind? start (opening (start ++ name)) = some name := by
  have split : (opening (start ++ name)).toList =
      start.toList ++ (name.toList ++ ' ' :: ['\x7b']) := by
    simp [opening]
  have chars : ∀ c ∈ name.toList, isWordChar c = true := List.all_eq_true.mp word
  rw [nameBehind?,split,stripStart_append,Option.map_some,List.takeWhile_append_of_pos chars,
    List.takeWhile_cons_of_neg (by decide),List.append_nil,String.ofList_toList]

/-- Neither of two texts starts with the other. -/
def Differ (start front : String) : Prop :=
  stripStart start.toList front.toList = none ∧ stripStart front.toList start.toList = none

instance decidableDiffer (start front : String) : Decidable (Differ start front) :=
  inferInstanceAs (Decidable (_ ∧ _))

theorem nameBehind?_differ {start front : String} (differ : Differ start front) (rest : String) :
    nameBehind? start (front ++ rest) = none := by
  rw [nameBehind?,String.toList_append,stripStart_of_apart differ.1 differ.2,Option.map_none]

theorem typeNames_differ {front : String}
    (differ : Differ "use " front ∧ ∀ start ∈ declarers, Differ start front) (rest : String) :
    typeNames (opening (front ++ rest)) = [] := by
  obtain ⟨imported,declared⟩ := differ
  have none : declarers.filterMap (nameBehind? · (front ++ (rest ++ " \x7b"))) = [] :=
    List.filterMap_eq_nil_iff.mpr fun start listed => nameBehind?_differ (declared start listed) _
  rw [opening,String.append_assoc,typeNames,none,String.toList_append,
    stripStart_of_apart imported.1 imported.2]
  rfl

theorem typeNames_import (path : String) : typeNames ("use " ++ path) = importNames path.toList := by
  have apart : ∀ start ∈ declarers, Differ start "use " := by decide
  have none : declarers.filterMap (nameBehind? · ("use " ++ path)) = [] :=
    List.filterMap_eq_nil_iff.mpr fun start listed => nameBehind?_differ (apart start listed) path
  rw [typeNames,none,String.toList_append,stripStart_append,Option.map_some,Option.getD_some,
    List.append_nil]

theorem typeNames_declared {start name : String} (listed : start ∈ declarers) (word : IsWord name) :
    typeNames (opening (start ++ name)) = [name] := by
  have apart : ∀ start ∈ declarers, Differ "use " start ∧
      ∀ other ∈ declarers, other ≠ start → Differ other start := by decide
  obtain ⟨imported,others⟩ := apart start listed
  have text : opening (start ++ name) = start ++ (name ++ " \x7b") := String.append_assoc ..
  have each : ∀ other ∈ declarers, nameBehind? other (opening (start ++ name)) =
      if other = start then some name else none := by
    intro other inside
    split
    next same => rw [same,nameBehind?_opening start word]
    next different => rw [text,nameBehind?_differ (others other inside different)]
  have free : stripStart "use ".toList (opening (start ++ name)).toList = none := by
    rw [text,String.toList_append,stripStart_of_apart imported.1 imported.2]
  rw [typeNames,free,List.filterMap_congr each]
  simp only [declarers,List.mem_cons,List.not_mem_nil,or_false] at listed
  rcases listed with rfl | rfl | rfl <;> rfl

/-- Such a head has two blanks, but three stand before the name of a type with a view. -/
theorem viewName?_methods {name : String} (word : IsWord name) :
    viewName? (opening ("impl " ++ name)) = none := by
  have blanks : (opening ("impl " ++ name)).toList.count ' ' = 2 := by
    have free : name.toList.count ' ' = 0 := List.count_eq_zero.mpr (word.free rfl)
    simp [opening,List.count_append,free]
  cases found : stripStart "impl AsNodeRef for ".toList (opening ("impl " ++ name)).toList with
  | none => rw [viewName?,nameBehind?,found,Option.map_none]
  | some rest =>
    rw [stripStart_eq_some found,List.count_append] at blanks
    have more : "impl AsNodeRef for ".toList.count ' ' = 3 := by decide
    omega

def Needs.imported (needs : Needs) : List String :=
  (if needs.cell then ["OnceCell"] else []) ++ ["fmt"] ++
    if needs.weak then ["Rc","Weak"] else if needs.shared then ["Rc"] else []

def Needs.support (needs : Needs) : List String :=
  ["AlreadyAssigned"] ++ (if needs.externalCopy then ["ExternalCopy"] else []) ++
    ["AsNodeRef","NodeRef"]

theorem Needs.typeNames_imports (needs : Needs) :
    needs.importLines.flatMap typeNames = needs.imported := by
  have cell : typeNames "use std::cell::OnceCell;" = ["OnceCell"] := by decide +kernel
  have format : typeNames "use std::fmt;" = ["fmt"] := by decide +kernel
  have pointers : typeNames "use std::rc::\x7bRc, Weak\x7d;" = ["Rc","Weak"] := by decide +kernel
  have pointer : typeNames "use std::rc::Rc;" = ["Rc"] := by decide +kernel
  unfold importLines imported
  cases needs.cell <;> cases needs.weak <;> cases needs.shared <;>
    simp [cell,format,pointers,pointer]

theorem Needs.typeNames_heads (needs : Needs) :
    (needs.heads ++ nodeRefHeads).flatMap typeNames = needs.support := by
  have known : supportHeads.map typeNames =
      [["AlreadyAssigned"],[],[],["ExternalCopy"],[],["AsNodeRef"],["NodeRef"],[],[]] := by
    decide +kernel
  simp only [supportHeads,List.map_cons,List.map_nil,List.cons.injEq,and_true] at known
  unfold heads nodeRefHeads support
  cases needs.externalCopy <;> cases needs.mappedCell <;> simp [known]

theorem Needs.viewNames_heads (needs : Needs) :
    (needs.heads ++ nodeRefHeads).filterMap viewName? = [] := by
  have known : ∀ head ∈ supportHeads, viewName? head = none := by
    decide +kernel
  exact List.filterMap_eq_nil_iff.mpr fun head inside =>
    known head (needs.heads_sublist.subset inside)

theorem typeNames_externals {names : List String} (named : ∀ name ∈ names, IsName name) :
    (outline (externalImport names)).flatMap typeNames = names := by
  rw [outline_externalImport]
  split
  next empty => exact (List.isEmpty_iff.mp empty).symm
  next some =>
    have split : "use super::externals::\x7b" ++ ", ".intercalate names ++ "\x7d;" =
        "use " ++ ("super::externals::\x7b" ++ ", ".intercalate names ++ "\x7d;") := by
      simp only [← String.append_assoc]
      rfl
    have read := importNames_list (by simpa using some) named "super::externals".toList
    rw [List.flatMap_singleton,split,typeNames_import]
    simp only [String.toList_append,toList_intercalate]
    exact read

theorem nameBehind?_other {start front : String} (differ : Differ start front) (rest : String) :
    nameBehind? start (opening (front ++ rest)) = none := by
  rw [opening,String.append_assoc]
  exact nameBehind?_differ differ _

section Heads

variable {model : Model} {cls : Model.Class}

theorem conversionHead_eq (leaf name : String) :
    s!"impl From<{leaf}> for {name}" = "impl From<" ++ (leaf ++ "> for " ++ name) := by
  simp only [ToString.toString,String.append_assoc]

theorem typeNames_classHeads (word : IsWord cls.name) :
    ((classHeads cls).map opening).flatMap typeNames = [cls.name] := by
  have struct : typeNames (opening s!"pub struct {cls.name}") = [cls.name] :=
    typeNames_declared (by decide) word
  have methods : typeNames (opening s!"impl {cls.name}") = [] := typeNames_differ (by decide) _
  have view : typeNames (opening s!"impl AsNodeRef for {cls.name}") = [] :=
    typeNames_differ (by decide) _
  unfold classHeads
  cases cls.isLeaf <;> simp [struct,methods,view]

theorem viewNames_classHeads (word : IsWord cls.name) :
    ((classHeads cls).map opening).filterMap viewName? =
      if cls.isLeaf then [cls.name] else [] := by
  have struct : viewName? (opening s!"pub struct {cls.name}") = none :=
    nameBehind?_other (by decide) _
  have methods : viewName? (opening s!"impl {cls.name}") = none :=
    viewName?_methods word
  have view : viewName? (opening s!"impl AsNodeRef for {cls.name}") =
      some cls.name := nameBehind?_opening _ word
  unfold classHeads
  cases cls.isLeaf <;> simp [struct,methods,view]

theorem typeNames_familyHeads (model : Model) (word : IsWord ("Any" ++ cls.name)) :
    ((familyHeads model cls).map opening).flatMap typeNames = ["Any" ++ cls.name] := by
  unfold familyHeads
  generalize "Any" ++ cls.name = name at word ⊢
  have enum : typeNames (opening s!"pub enum {name}") = [name] :=
    typeNames_declared (by decide) word
  have methods : typeNames (opening s!"impl {name}") = [] := typeNames_differ (by decide) _
  have view : typeNames (opening s!"impl AsNodeRef for {name}") = [] :=
    typeNames_differ (by decide) _
  have conversion (leaf : String) : typeNames (opening s!"impl From<{leaf}> for {name}") = [] := by
    rw [conversionHead_eq]
    exact typeNames_differ (by decide) _
  simp [enum,methods,view,conversion,List.flatMap_map]

theorem viewNames_familyHeads (model : Model) (word : IsWord ("Any" ++ cls.name)) :
    ((familyHeads model cls).map opening).filterMap viewName? =
      ["Any" ++ cls.name] := by
  unfold familyHeads
  generalize "Any" ++ cls.name = name at word ⊢
  have enum : viewName? (opening s!"pub enum {name}") = none :=
    nameBehind?_other (by decide) _
  have methods : viewName? (opening s!"impl {name}") = none :=
    viewName?_methods word
  have view : viewName? (opening s!"impl AsNodeRef for {name}") =
      some name := nameBehind?_opening _ word
  have conversion (leaf : String) :
      viewName? (opening s!"impl From<{leaf}> for {name}") = none := by
    rw [conversionHead_eq]
    exact nameBehind?_other (by decide) _
  simp [enum,methods,view,conversion,List.filterMap_map]

end Heads

section Names

variable {model : Model}

theorem takenNames_eq (model : Model) :
    takenNames model = (Needs.of model).imported ++ (Needs.of model).support := by
  have implied : (Needs.of model).weak = true → (Needs.of model).shared = true := by
    intro weak
    obtain ⟨field,inside,held⟩ := List.any_eq_true.mp weak
    simp only [isWeak,Bool.and_eq_true] at held
    exact List.any_eq_true.mpr ⟨field,inside,by simp [held.1]⟩
  have taken : takenNames model = (if (Needs.of model).cell then ["OnceCell"] else []) ++ ["fmt"] ++
      (if (Needs.of model).shared then ["Rc"] else []) ++
      (if (Needs.of model).weak then ["Weak"] else []) ++ ["AlreadyAssigned"] ++
      (if (Needs.of model).externalCopy then ["ExternalCopy"] else []) ++
      ["AsNodeRef","NodeRef"] := rfl
  rw [taken,Needs.imported,Needs.support]
  cases weak : (Needs.of model).weak with
  | true => simp [implied weak]
  | false => simp

theorem takenNames_nodup (model : Model) : (takenNames model).Nodup := by
  rw [takenNames_eq,Needs.imported,Needs.support]
  cases (Needs.of model).cell <;> cases (Needs.of model).weak <;> cases (Needs.of model).shared <;>
    cases (Needs.of model).externalCopy <;> decide

theorem family_not_taken (model : Model) (cls : String) : "Any" ++ cls ∉ takenNames model := by
  have known : ∀ name ∈ ["OnceCell","fmt","Rc","Weak","AlreadyAssigned","ExternalCopy","AsNodeRef",
      "NodeRef"], stripStart "Any".toList name.toList = none := by decide
  have listed : takenNames model ⊆ ["OnceCell","fmt","Rc","Weak","AlreadyAssigned","ExternalCopy",
      "AsNodeRef","NodeRef"] := by
    rw [takenNames_eq,Needs.imported,Needs.support]
    cases (Needs.of model).cell <;> cases (Needs.of model).weak <;>
      cases (Needs.of model).shared <;> cases (Needs.of model).externalCopy <;> simp
  intro inside
  have none := known _ (listed inside)
  rw [String.toList_append,stripStart_append] at none
  cases none

theorem families_nodup (names : (model.classes.map (·.name)).Nodup) :
    (model.categories.map ("Any" ++ ·.name)).Nodup := by
  have distinct : (model.categories.map (·.name)).Nodup :=
    names.sublist (List.filter_sublist.map _)
  have injective : Function.Injective ("Any" ++ · : String → String) := by
    intro one other same
    have texts := congrArg String.toList same
    rw [String.toList_append,String.toList_append] at texts
    exact String.toList_inj.mp (List.append_cancel_left texts)
  have images := distinct.map injective
  rwa [List.map_map] at images

/-- Among the names of a file, only those that have been chosen can be the same. -/
theorem names_nodup_iff (names : (model.classes.map (·.name)).Nodup)
    (externals : model.externals.Nodup) :
    (takenNames model ++ model.externals ++ model.classes.map (·.name) ++
      model.categories.map ("Any" ++ ·.name)).Nodup ↔ Apart model := by
  rw [List.nodup_append',List.nodup_append',List.nodup_append']
  constructor
  · rintro ⟨⟨⟨-,-,apart⟩,-,classes⟩,-,families⟩
    refine ⟨fun name inside taken => apart taken inside,fun cls member => ⟨fun taken => ?_,
      fun external => ?_⟩,fun category member => ⟨fun external => ?_,fun cls inside same => ?_⟩⟩
    · exact classes (List.mem_append_left _ taken) (List.mem_map_of_mem member)
    · exact classes (List.mem_append_right _ external) (List.mem_map_of_mem member)
    · exact families (List.mem_append_left _ (List.mem_append_right _ external))
        (List.mem_map_of_mem member)
    · exact families (List.mem_append_right _ (List.mem_map.mpr ⟨cls,inside,same⟩))
        (List.mem_map_of_mem member)
  · intro apart
    refine ⟨⟨⟨takenNames_nodup model,externals,fun name taken external =>
      apart.externals name external taken⟩,names,?_⟩,families_nodup names,?_⟩
    · intro name other inside
      obtain ⟨cls,member,rfl⟩ := List.mem_map.mp inside
      rcases List.mem_append.mp other with taken | external
      · exact (apart.classes cls member).1 taken
      · exact (apart.classes cls member).2 external
    · intro name other inside
      obtain ⟨category,member,rfl⟩ := List.mem_map.mp inside
      rcases List.mem_append.mp other with before | declared
      · rcases List.mem_append.mp before with taken | external
        · exact family_not_taken model _ taken
        · exact (apart.families category member).1 external
      · obtain ⟨cls,listed,same⟩ := List.mem_map.mp declared
        exact (apart.families category member).2 cls listed same

theorem views_nodup_iff (names : (model.classes.map (·.name)).Nodup) :
    (model.leaves.map (·.name) ++ model.categories.map ("Any" ++ ·.name)).Nodup ↔
      ∀ leaf ∈ model.leaves, ∀ category ∈ model.categories, leaf.name ≠ "Any" ++ category.name := by
  have leaves : (model.leaves.map (·.name)).Nodup := names.sublist (List.filter_sublist.map _)
  rw [List.nodup_append]
  simp only [leaves,families_nodup names,true_and,List.forall_mem_map]

end Names

/-- The names of a model that is read from a text. -/
theorem Spelled.of_read {text : String} {schema : Schema} {externals : NameSet} {model : Model}
    (read : Schema.ofText text = .ok schema) (resolved : schema.resolveWith externals = .ok model) :
    Spelled model := by
  have expressible := Schema.expressible_of_text read
  obtain ⟨ok,rfl⟩ := Schema.resolveWith_eq_ok.mp resolved
  constructor
  case classes =>
    intro cls member
    obtain ⟨node,chain,line,rfl⟩ := (Schema.mem_resolvedModel ok.names).mp member
    exact (expressible.nodes node line.member).name
  case externals =>
    intro name used
    obtain ⟨node,member,field,declared,kind⟩ := (ok.mem_externals name).mp used
    have spelled := ((expressible.nodes node member).fields field declared).kind
    rw [kind] at spelled
    exact spelled.1

theorem Spelled.word {model : Model} (spelled : Spelled model) {cls : Model.Class}
    (member : cls ∈ model.classes) : IsWord cls.name :=
  .of_isName (spelled.classes cls member)

theorem Spelled.familyWord {model : Model} (spelled : Spelled model) {cls : Model.Class}
    (member : cls ∈ model.categories) : IsWord ("Any" ++ cls.name) :=
  IsWord.append (by decide) (spelled.word (List.mem_of_mem_filter member))

section Files

variable {model : Model} (spelled : Spelled model) (filled : (SourceFile.of model).classes ≠ [])
include spelled filled

theorem typeNamesOf_source : typeNamesOf (SourceFile.of model).lines =
    (Needs.of model).imported ++ model.externals ++ (Needs.of model).support ++
      model.classes.map (·.name) ++ model.categories.map ("Any" ++ ·.name) := by
  have classes : (model.classes.flatMap fun cls => ((classHeads cls).map opening).flatMap typeNames) =
      model.classes.map (·.name) :=
    (List.flatMap_congr fun cls member => typeNames_classHeads (spelled.word member)).trans
      List.map_eq_flatMap.symm
  have families : (model.categories.flatMap fun cls =>
      ((familyHeads model cls).map opening).flatMap typeNames) =
        model.categories.map ("Any" ++ ·.name) :=
    (List.flatMap_congr fun cls member => typeNames_familyHeads model
      (spelled.familyWord member)).trans List.map_eq_flatMap.symm
  have imports : (SourceFile.of model).imports.flatMap typeNames =
      (Needs.of model).imported ++ model.externals := by
    have externals := typeNames_externals spelled.externals
    rw [SourceFile.imports,List.flatMap_append,Needs.typeNames_imports]
    exact congrArg _ externals
  have support : ((SourceFile.of model).needs.heads ++ nodeRefHeads).flatMap typeNames =
      (Needs.of model).support := Needs.typeNames_heads _
  rw [typeNamesOf,declarations_of model filled]
  rw [List.flatMap_append,List.flatMap_append,imports,support,List.map_append,List.flatMap_append,
    List.map_flatMap,List.map_flatMap,List.flatMap_assoc,List.flatMap_assoc,classes,families]
  simp only [List.append_assoc]

theorem viewNamesOf_source : viewNamesOf (SourceFile.of model).lines =
    model.leaves.map (·.name) ++ model.categories.map ("Any" ++ ·.name) := by
  have imports : (SourceFile.of model).imports.filterMap viewName? = [] := by
    refine List.filterMap_eq_nil_iff.mpr fun line inside => ?_
    obtain ⟨path,rfl⟩ := SourceFile.isImport _ inside
    exact nameBehind?_differ (by decide) path
  have support : ((SourceFile.of model).needs.heads ++ nodeRefHeads).filterMap
      viewName? = [] := Needs.viewNames_heads _
  have classes : (model.classes.flatMap fun cls =>
      ((classHeads cls).map opening).filterMap viewName?) =
        model.leaves.map (·.name) := by
    rw [List.flatMap_congr fun cls member => viewNames_classHeads (spelled.word member),Model.leaves]
    induction model.classes with
    | nil => rfl
    | cons cls classes ih => cases leaf : cls.isLeaf <;> simp [leaf,ih]
  have families : (model.categories.flatMap fun cls =>
      ((familyHeads model cls).map opening).filterMap viewName?) =
        model.categories.map ("Any" ++ ·.name) :=
    (List.flatMap_congr fun cls member => viewNames_familyHeads model
      (spelled.familyWord member)).trans List.map_eq_flatMap.symm
  rw [viewNamesOf,declarations_of model filled]
  rw [List.filterMap_append,List.filterMap_append,imports,support,List.map_append,
    List.filterMap_append,List.map_flatMap,List.map_flatMap,List.filterMap_flatMap,
    List.filterMap_flatMap,classes,families]
  rfl

end Files

theorem typed_of_resolved {schema : Schema} {externals : NameSet} {model : Model}
    (resolved : schema.resolveWith externals = .ok model) (filled : model.classes ≠ [])
    (spelled : Spelled model) : Typed model (SourceFile.of model).lines := by
  have filled' : (SourceFile.of model).classes ≠ [] := by simpa [SourceFile.of] using filled
  have names := (Sound.of_resolved resolved).consistent.names
  have distinct : model.externals.Nodup := by
    obtain ⟨ok,rfl⟩ := Schema.resolveWith_eq_ok.mp resolved
    exact ok.describes.sorted.imp ne_of_lt
  have types : (typeNamesOf (SourceFile.of model).lines).Perm (takenNames model ++
      model.externals ++ model.classes.map (·.name) ++ model.categories.map ("Any" ++ ·.name)) := by
    rw [typeNamesOf_source spelled filled',takenNames_eq]
    refine ((List.Perm.append_right _ ?_).append_right _)
    rw [List.append_assoc,List.append_assoc]
    exact List.perm_append_comm.append_left _
  have views := viewNamesOf_source spelled filled'
  constructor
  case types => exact types
  case views => exact views
  case typesApart => rw [types.nodup_iff,names_nodup_iff names distinct]
  case viewsApart => rw [views,views_nodup_iff names]

/-- The source emitted for a resolved model is closed. If names are identifiers, as in all models
that are read from a text, its types have different names exactly if those of the classes, their
families and the external types are apart from each other and from what the file takes; its views
are of different types exactly if no leaf is named like a family. -/
theorem source_closed_typed {schema : Schema} {externals : NameSet} {model : Model}
    (resolved : schema.resolveWith externals = .ok model) (filled : model.classes ≠ []) :
    ∃ lines, NodeModel.Target.source.files model =
        [⟨"nodes.rs",String.join (lines.map (· ++ "\n"))⟩] ∧
      Closed schema model lines ∧ (Spelled model → Typed model lines) ∧
      ∀ text, Schema.ofText text = .ok schema → Spelled model :=
  ⟨_,rfl,closed_of_resolved resolved filled,typed_of_resolved resolved filled,
    fun _ read => .of_read read resolved⟩

theorem source_closed_typed_sample :
    Arena.sample.resolveWith ⟨["Type"]⟩ = .ok Arena.sampleModel ∧ Arena.sampleModel.classes ≠ [] ∧
      ∃ lines, NodeModel.Target.source.files Arena.sampleModel =
          [⟨"nodes.rs",String.join (lines.map (· ++ "\n"))⟩] ∧
        Closed Arena.sample Arena.sampleModel lines ∧ Typed Arena.sampleModel lines ∧
        (typeNamesOf lines).Nodup ∧ (viewNamesOf lines).Nodup := by
  have filled : Arena.sampleModel.classes ≠ [] := List.cons_ne_nil _ _
  obtain ⟨lines,file,closed,typed,_⟩ := source_closed_typed Arena.sample_resolved filled
  have typed := typed ⟨by decide +kernel,by decide +kernel⟩
  exact ⟨Arena.sample_resolved,filled,lines,file,closed,typed,
    typed.typesApart.mpr ⟨by decide +kernel,by decide +kernel,by decide +kernel⟩,
    typed.viewsApart.mpr (by decide +kernel)⟩

def assignedText : String := "node AlreadyAssigned \x7b\n    n: string\n\x7d\n"

def assigned : Schema where
  nodes := [{ name := "AlreadyAssigned", fields := [{ name := "n", kind := .primitive .text }] }]

def shadowedText : String := "node Item \x7b\x7d\nnode AnyItem : Item \x7b\x7d\n"

def shadowed : Schema where
  nodes := [{ name := "Item" },{ name := "AnyItem", superclass := some "Item" }]

theorem two_le_count {line : String} {lines first second : List String}
    (part : (first ++ second).Sublist lines) (before : line ∈ first) (behind : line ∈ second) :
    2 ≤ lines.count line := by
  have more := part.count_le line
  have one := List.count_pos_iff.mpr before
  have another := List.count_pos_iff.mpr behind
  rw [List.count_append] at more
  omega

/-- A text is accepted for which the file has two structs of one name, and another for which it has
two views of one type. -/
theorem source_types_clash :
    (Schema.ofText assignedText = .ok assigned ∧
      assigned.resolve = .ok (assigned.resolvedModel {}) ∧
      2 ≤ (outline (SourceFile.of (assigned.resolvedModel {})).lines).count
        (opening "pub struct AlreadyAssigned") ∧
      ¬ (typeNamesOf (SourceFile.of (assigned.resolvedModel {})).lines).Nodup) ∧
    Schema.ofText shadowedText = .ok shadowed ∧
      shadowed.resolve = .ok (shadowed.resolvedModel {}) ∧
      2 ≤ (outline (SourceFile.of (shadowed.resolvedModel {})).lines).count
        (opening "impl AsNodeRef for AnyItem") ∧
      ¬ (viewNamesOf (SourceFile.of (shadowed.resolvedModel {})).lines).Nodup := by
  have read : Schema.ofText assignedText = .ok assigned := by decide +kernel
  have resolved : assigned.resolve = .ok (assigned.resolvedModel {}) := rfl
  have read' : Schema.ofText shadowedText = .ok shadowed := by decide +kernel
  have resolved' : shadowed.resolve = .ok (shadowed.resolvedModel {}) := rfl
  have typed := typed_of_resolved resolved (List.cons_ne_nil _ _) (.of_read read resolved)
  have typed' := typed_of_resolved resolved' (List.cons_ne_nil _ _) (.of_read read' resolved')
  have taken : ¬ Apart (assigned.resolvedModel {}) := fun apart => by
    have free := (List.forall_mem_cons.mp apart.classes).1.1
    exact free (by decide +kernel)
  have structs := declarations_of (assigned.resolvedModel {}) (List.cons_ne_nil _ _)
  have views := declarations_of (shadowed.resolvedModel {}) (List.cons_ne_nil _ _)
  have struct : "pub struct AlreadyAssigned" ∈
      (assigned.resolvedModel {}).classes.flatMap classHeads := by decide +kernel
  have leaf : "impl AsNodeRef for AnyItem" ∈
      (shadowed.resolvedModel {}).classes.flatMap classHeads := by decide +kernel
  have family : "impl AsNodeRef for AnyItem" ∈
      (shadowed.resolvedModel {}).categories.flatMap (familyHeads (shadowed.resolvedModel {})) := by
    decide +kernel
  refine ⟨⟨read,resolved,?_,mt typed.typesApart.mp taken⟩,read',resolved',?_,
    mt typed'.viewsApart.mp (by decide +kernel)⟩
  · rw [structs]
    refine two_le_count (List.Sublist.refl _) ?_ (List.mem_map_of_mem (List.mem_append_left _ struct))
    exact List.mem_append_right _ List.mem_cons_self
  · rw [views,List.map_append]
    exact two_le_count (List.sublist_append_right ..) (List.mem_map_of_mem leaf)
      (List.mem_map_of_mem family)

end NodeModel.Source
