import NodeModel.Source.Text

/-! The outline of an emitted file, read off its lines: declarations start in the first column, and
what they hold is indented. -/
namespace NodeModel.Source

/-- The first line of a declaration. Documentation, attributes and closing braces stand in the first
column as well. -/
def isHead (line : String) : Bool :=
  line.toList.head?.any fun c => !([' ','/','#','\x7d'].contains c)

/-- A literal is decided by its first character. -/
theorem isHead_ofList (c : Char) (cs : List Char) :
    isHead (String.ofList (c :: cs)) = !([' ','/','#','\x7d'].contains c) := by
  simp [isHead]

theorem isHead_append {first : String} (head : isHead first = true) (rest : String) :
    isHead (first ++ rest) = true := by
  unfold isHead at head ⊢
  cases start : first.toList.head? with
  | none => simp [start] at head
  | some c => simpa [start] using head

def outline (lines : List String) : List String := lines.filter isHead

theorem outline_head {line : String} (head : isHead line = true) (lines : List String) :
    outline (line :: lines) = line :: outline lines := List.filter_cons_of_pos head

theorem outline_other {line : String} (other : isHead line = false) (lines : List String) :
    outline (line :: lines) = outline lines := List.filter_cons_of_neg (by simp [other])

theorem outline_append (lines rest : List String) :
    outline (lines ++ rest) = outline lines ++ outline rest := List.filter_append ..

theorem outline_flatMap {α : Type} (items : List α) (lines : α → List String) :
    outline (items.flatMap lines) = items.flatMap fun item => outline (lines item) :=
  List.filter_flatMap ..

theorem outline_ite (wanted : Bool) (lines : List String) :
    outline (if wanted then lines else []) = if wanted then outline lines else [] := by
  cases wanted <;> rfl

theorem outline_indented (lines : List String) : outline (indented lines) = [] := by
  refine List.filter_eq_nil_iff.mpr fun line inside => ?_
  obtain ⟨text,_,rfl⟩ := List.mem_map.mp inside
  split <;> simp [isHead]

theorem outline_docLines (doc : Option String) : outline (docLines doc) = [] := by
  refine List.filter_eq_nil_iff.mpr fun line inside => ?_
  cases doc with
  | none => simp [docLines] at inside
  | some doc =>
    obtain ⟨cs,_,rfl⟩ := List.mem_map.mp inside
    dsimp only
    split <;> simp [isHead]

/-- Of a declaration the outline shows the head alone. -/
theorem outline_block (head : String) (first : isHead head = true) (body : List String) :
    outline (block head body) = [opening head] := by
  have closing : outline ["\x7d"] = [] ∧ outline [""] = [] := by decide
  have start : outline [opening head] = [opening head] := outline_head (isHead_append first _) []
  simp only [block,braced,outline_append,outline_indented,start,closing,List.append_nil]

def ClassItem.heads (item : ClassItem) : List String :=
  [s!"pub struct {item.name}",s!"impl {item.name}"] ++
    if item.leaf then [s!"impl AsNodeRef for {item.name}"] else []

theorem ClassItem.outline_lines (item : ClassItem) :
    outline item.lines = item.heads.map opening := by
  have struct := outline_block s!"pub struct {item.name}" (isHead_append (isHead_ofList _ _) _)
  have methods := outline_block s!"impl {item.name}" (isHead_append (isHead_ofList _ _) _)
  have view := outline_block s!"impl AsNodeRef for {item.name}"
    (isHead_append (isHead_ofList _ _) _)
  have derived : outline ["#[derive(Debug)]"] = [] := outline_other (isHead_ofList _ _) []
  simp only [lines,structLines,heads,outline_append,outline_ite,outline_docLines,struct,methods,view,
    derived]
  cases item.leaf <;> rfl

def FamilyItem.heads (family : FamilyItem) : List String :=
  [s!"pub enum {family.name}",s!"impl {family.name}",s!"impl AsNodeRef for {family.name}"] ++
    family.leaves.map fun leaf => s!"impl From<{leaf}> for {family.name}"

theorem FamilyItem.outline_lines (family : FamilyItem) :
    outline family.lines = family.heads.map opening := by
  have variants := outline_block s!"pub enum {family.name}" (isHead_append (isHead_ofList _ _) _)
  have methods := outline_block s!"impl {family.name}" (isHead_append (isHead_ofList _ _) _)
  have view := outline_block s!"impl AsNodeRef for {family.name}"
    (isHead_append (isHead_ofList _ _) _)
  have conversion (leaf : String) : outline (family.conversionLines leaf) =
      [opening s!"impl From<{leaf}> for {family.name}"] :=
    outline_block _ (isHead_append (isHead_append (isHead_append (isHead_ofList _ _) _) _) _) _
  have doc : isHead s!"/// Concrete subclasses of `{family.cls}`." = false := by
    simp [isHead,ToString.toString]
  have derived : outline [s!"/// Concrete subclasses of `{family.cls}`.","#[derive(Debug)]"] = [] :=
    (outline_other doc _).trans (outline_other (isHead_ofList _ _) [])
  simp only [lines,heads,outline_append,outline_flatMap,variants,methods,view,conversion,derived,
    ← List.map_eq_flatMap,List.map_append,List.map_map]
  rfl

def Needs.heads (needs : Needs) : List String :=
  [opening "pub struct AlreadyAssigned"] ++
  [opening "impl fmt::Display for AlreadyAssigned"] ++
  ["impl std::error::Error for AlreadyAssigned \x7b\x7d"] ++
  (if needs.externalCopy then [opening "pub trait ExternalCopy"] else []) ++
  (if needs.mappedCell then
    [opening "fn map_cell<T, U>(cell: &OnceCell<T>, f: impl FnOnce(&T) -> U) -> OnceCell<U>"]
  else []) ++
  [opening "pub trait AsNodeRef"]

theorem Needs.outline_preludeLines (needs : Needs) : outline needs.preludeLines = needs.heads := by
  have assigned := outline_block "pub struct AlreadyAssigned" (isHead_ofList _ _)
  have shown := outline_block "impl fmt::Display for AlreadyAssigned" (isHead_ofList _ _)
  have copy := outline_block "pub trait ExternalCopy" (isHead_ofList _ _)
  have cell := outline_block
    "fn map_cell<T, U>(cell: &OnceCell<T>, f: impl FnOnce(&T) -> U) -> OnceCell<U>"
    (isHead_ofList _ _)
  have view := outline_block "pub trait AsNodeRef" (isHead_ofList _ _)
  have error : outline ["impl std::error::Error for AlreadyAssigned \x7b\x7d",""] =
      ["impl std::error::Error for AlreadyAssigned \x7b\x7d"] :=
    outline_head (isHead_ofList _ _) [""]
  have derived : outline ["/// A deferred field was assigned twice.",
      "#[derive(Debug, Clone, PartialEq, Eq)]"] = [] :=
    (outline_other (isHead_ofList _ _) _).trans (outline_other (isHead_ofList _ _) [])
  have copyDoc : outline ["/// Copy routine for external types cloned with `@external_copy`."] = [] :=
    outline_other (isHead_ofList _ _) []
  have viewDoc : outline ["/// Borrowed view of a node, for generic traversal."] = [] :=
    outline_other (isHead_ofList _ _) []
  simp only [preludeLines,heads,outline_append,outline_ite,assigned,shown,copy,cell,view,error,
    derived,copyDoc,viewDoc,List.nil_append,List.append_nil]

def nodeRefHeads : List String :=
  [opening "pub enum NodeRef<'a>"] ++ [opening "impl<'a> NodeRef<'a>"] ++
    [opening "pub fn walk(node: NodeRef<'_>, visit: &mut dyn FnMut(NodeRef<'_>))"]

theorem outline_nodeRefLines (leaves : List String) :
    outline (nodeRefLines leaves) = nodeRefHeads := by
  have variants := outline_block "pub enum NodeRef<'a>" (isHead_ofList _ _)
  have methods := outline_block "impl<'a> NodeRef<'a>" (isHead_ofList _ _)
  have walk := outline_block "pub fn walk(node: NodeRef<'_>, visit: &mut dyn FnMut(NodeRef<'_>))"
    (isHead_ofList _ _)
  have derived : outline ["/// Any concrete node.","#[derive(Debug, Clone, Copy)]"] = [] :=
    (outline_other (isHead_ofList _ _) _).trans (outline_other (isHead_ofList _ _) [])
  have walkDoc : outline ["/// Pre-order walk over visitable edges."] = [] :=
    outline_other (isHead_ofList _ _) []
  simp only [nodeRefLines,nodeRefHeads,outline_append,variants,methods,walk,derived,walkDoc,
    List.nil_append,List.append_nil]

/-- All declarations that a file may have besides imports, classes and families. -/
def supportHeads : List String :=
  [opening "pub struct AlreadyAssigned",
    opening "impl fmt::Display for AlreadyAssigned",
    "impl std::error::Error for AlreadyAssigned \x7b\x7d",
    opening "pub trait ExternalCopy",
    opening "fn map_cell<T, U>(cell: &OnceCell<T>, f: impl FnOnce(&T) -> U) -> OnceCell<U>",
    opening "pub trait AsNodeRef",
    opening "pub enum NodeRef<'a>",
    opening "impl<'a> NodeRef<'a>",
    opening "pub fn walk(node: NodeRef<'_>, visit: &mut dyn FnMut(NodeRef<'_>))"]

theorem Needs.heads_sublist (needs : Needs) :
    (needs.heads ++ nodeRefHeads).Sublist supportHeads := by
  have onDemand (wanted : Bool) (lines : List String) :
      (if wanted then lines else []).Sublist lines := by
    cases wanted <;> simp
  exact ((((List.Sublist.refl _).append (onDemand _ _)).append (onDemand _ _)).append
    (List.Sublist.refl _)).append (List.Sublist.refl _)

def IsImport (line : String) : Prop := ∃ path, line = "use " ++ path

theorem IsImport.isHead {line : String} (imported : IsImport line) : isHead line = true := by
  obtain ⟨path,rfl⟩ := imported
  exact isHead_append (isHead_ofList _ _) path

theorem Needs.isImport (needs : Needs) {line : String} (inside : line ∈ needs.importLines) :
    IsImport line := by
  have known : needs.importLines ⊆ ["use std::cell::OnceCell;","use std::fmt;",
      "use std::rc::\x7bRc, Weak\x7d;","use std::rc::Rc;"] := by
    unfold importLines
    cases needs.cell <;> cases needs.weak <;> cases needs.shared <;> simp
  have listed := known inside
  simp only [List.mem_cons,List.not_mem_nil,or_false] at listed
  rcases listed with rfl | rfl | rfl | rfl
  · exact ⟨"std::cell::OnceCell;",rfl⟩
  · exact ⟨"std::fmt;",rfl⟩
  · exact ⟨"std::rc::\x7bRc, Weak\x7d;",rfl⟩
  · exact ⟨"std::rc::Rc;",rfl⟩

theorem outline_externalImport (externals : List String) :
    outline (externalImport externals) = if externals.isEmpty then [] else
      ["use super::externals::\x7b" ++ ", ".intercalate externals ++ "\x7d;"] := by
  unfold externalImport
  split
  next => rfl
  next =>
    exact (outline_other (by decide) _).trans <| (outline_other (isHead_ofList _ _) _).trans <|
      outline_head (isHead_append (isHead_append (isHead_ofList _ _) _) _) []

def SourceFile.imports (file : SourceFile) : List String :=
  file.needs.importLines ++ outline (externalImport file.externals)

theorem SourceFile.isImport (file : SourceFile) {line : String} (inside : line ∈ file.imports) :
    IsImport line := by
  rcases List.mem_append.mp inside with std | external
  · exact file.needs.isImport std
  · rw [outline_externalImport] at external
    split at external
    next => simp at external
    next =>
      cases List.mem_singleton.mp external
      have split : "use super::externals::\x7b" = "use " ++ "super::externals::\x7b" := rfl
      exact ⟨_,by rw [split,String.append_assoc,String.append_assoc]⟩

theorem SourceFile.outline_lines (file : SourceFile) (filled : file.classes ≠ []) :
    outline file.lines = file.imports ++ (file.needs.heads ++ nodeRefHeads) ++
      (file.classes.flatMap (·.heads) ++ file.families.flatMap (·.heads)).map opening := by
  have imports : outline file.needs.importLines = file.needs.importLines :=
    List.filter_eq_self.mpr fun line inside => (file.needs.isImport inside).isHead
  have blank : outline [""] = [] := by decide
  rw [lines,outline_other (isHead_ofList _ _),if_neg (by simpa using filled)]
  simp only [SourceFile.imports,outline_append,outline_flatMap,blank,imports,
    Needs.outline_preludeLines,outline_nodeRefLines,ClassItem.outline_lines,
    FamilyItem.outline_lines,List.map_append,List.map_flatMap,List.nil_append,List.append_assoc]

end NodeModel.Source
