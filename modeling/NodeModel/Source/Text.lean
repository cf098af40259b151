import NodeModel.Source.Item
import NodeModel.Text.Pieces

/-! The text of the emitted source file, line by line. -/
namespace NodeModel.Source

/-- The name of the enum of a category. -/
def familyName (cls : String) : String := "Any" ++ cls

def Target.render : Target → String
  | .struct cls => cls
  | .family cls => familyName cls

def pointer (weak : Bool) (target : Target) : String :=
  (if weak then "Weak" else "Rc") ++ s!"<{target.render}>"

def ValueType.render : ValueType → String
  | .text => "String"
  | .flag => "bool"
  | .number => "i64"
  | .external name => s!"Rc<{name}>"
  | .edge weak target => pointer weak target
  | .edges weak target => s!"Vec<{pointer weak target}>"

def Storage.wrap (type : String) : Storage → String
  | .plain => type
  | .option => s!"Option<{type}>"
  | .cell => s!"OnceCell<{type}>"

/-- Lines one level further in. A blank line stays blank. -/
def indented (lines : List String) : List String :=
  lines.map fun line => if line.isEmpty then "" else "    " ++ line

/-- The line that opens a pair of braces. -/
def opening (head : String) : String := head ++ " \x7b"

/-- A head and what it holds, between braces. -/
def braced (head : String) (body : List String) : List String :=
  [opening head] ++ indented body ++ ["\x7d"]

/-- A declaration at the top level, with a blank line behind it. -/
def block (head : String) (body : List String) : List String := braced head body ++ [""]

/-- Documentation lines; an empty one has no blank at its end. -/
def docLines : Option String → List String
  | none => []
  | some doc => (Text.lines doc.toList).map fun line =>
    let text := "/// ".toList ++ line
    String.ofList (if "/// ".toList.isSuffixOf text then text.dropLast else text)

def StructField.lines (field : StructField) : List String :=
  let visibility := if field.storage = .cell then "" else "pub "
  docLines field.doc ++
    [s!"{visibility}{fieldIdent field.name}: {field.storage.wrap field.type.render},"]

def ClassItem.structLines (item : ClassItem) : List String :=
  docLines item.doc ++ ["#[derive(Debug)]"] ++
  block s!"pub struct {item.name}" (item.fields.flatMap (·.lines))

def Param.text (param : Param) : String :=
  let type := if param.optional then s!"Option<{param.type.render}>" else param.type.render
  s!"{fieldIdent param.field}: {type}"

/-- A field that takes the parameter of its name needs no value. -/
def initialLine : String × Expr → String
  | (field, .param _) => s!"{fieldIdent field},"
  | (field, value) => s!"{fieldIdent field}: {value.render},"

def ClassItem.constructorLines (item : ClassItem) : List String :=
  let params := ", ".intercalate (item.params.map (·.text))
  braced s!"pub fn new({params}) -> Self" (braced "Self" (item.initials.map initialLine))

def Getter.type : Getter → String
  | .upgraded target => s!"Option<Rc<{target.render}>>"
  | .text false => "Option<&str>"
  | .text true => "&str"
  | .flag false => "Option<bool>"
  | .flag true => "bool"
  | .number false => "Option<i64>"
  | .number true => "i64"
  | .slice weak target => s!"&[{pointer weak target}]"
  | .borrowed type => s!"Option<&{type.render}>"

def Setter.type : Setter → String
  | .downgraded target => s!"&Rc<{target.render}>"
  | .direct type => type.render

def Accessor.getterLines (accessor : Accessor) : List String :=
  docLines accessor.doc ++
  braced s!"pub fn {accessor.getterName}(&self) -> {accessor.getter.type}"
    [(accessor.getter.expr accessor.field).render]

def Accessor.setterLines (accessor : Accessor) : List String :=
  braced (s!"pub fn {accessor.setterName}(&self, value: {accessor.setter.type}) " ++
      "-> Result<(), AlreadyAssigned>")
    [s!"self.{fieldIdent accessor.field}.set({accessor.setter.expr.render})" ++
        ".map_err(|_| AlreadyAssigned \x7b",
      "    class: Self::CLASS,",
      s!"    field: \"{accessor.field}\",",
      "\x7d)"]

def Accessor.lines (accessor : Accessor) : List String :=
  accessor.getterLines ++ [""] ++ accessor.setterLines ++ [""]

def ChildLoop.lines (loop : ChildLoop) : List String :=
  let visit := ["visit(child.as_node_ref());"]
  braced s!"for child in {loop.source.render}"
    (if loop.weak then braced "if let Some(child) = child.upgrade()" visit else visit)

def childrenHead (visit : String) : String :=
  s!"pub fn children(&self, {visit}: &mut dyn FnMut(NodeRef<'_>))"

def ClassItem.childrenLines (item : ClassItem) : List String :=
  let visit := if item.children.isEmpty then "_visit" else "visit"
  braced (childrenHead visit) (item.children.flatMap (·.lines))

def CloneEntry.line (entry : CloneEntry) : String :=
  s!"{fieldIdent entry.field}: {entry.expr.render},"

def ClassItem.cloneLines (item : ClassItem) : List String :=
  ["/// Copy per the clone specification: owned children are fresh,",
    "/// shared edges alias, reset fields start absent."] ++
  braced "pub fn structural_clone(&self) -> Self" (braced "Self" (item.clones.map (·.line)))

def OptionalRead.text (ident : String) : OptionalRead → String
  | .plain true => s!"Some(self.{ident}.as_str())"
  | .plain false => s!"Some(self.{ident})"
  | .option true => s!"self.{ident}.as_deref()"
  | .option false => s!"self.{ident}"
  | .cell true => s!"self.{ident}.get().map(String::as_str)"
  | .cell false => s!"self.{ident}.get().copied()"
  | .accessor name => s!"Some(self.{name}())"

def MangleItem.lines (item : MangleItem) : List String :=
  [s!"pub const MANGLE_NAME_FIELD: &'static str = \"{item.nameField}\";",
    s!"pub const MANGLE_FLAG_FIELD: &'static str = \"{item.flagField}\";", "",
    "/// Identity name recorded for mangling, if assigned."] ++
  braced "pub fn mangle_name(&self) -> Option<&str>" [item.readName.text item.nameIdent] ++
  ["", "/// Whether this instance's name is replaced by the mangled one."] ++
  braced "pub fn mangle_applies(&self) -> bool"
    [s!"{item.readFlag.text item.flagIdent}.unwrap_or(false)"]

def ClassItem.methodLines (item : ClassItem) : List String :=
  [s!"pub const CLASS: &'static str = \"{item.name}\";",
    s!"pub const IS_GENERIC: bool = {item.generic};",
    s!"pub const IS_UNIQUE: bool = {item.unique};", ""] ++
  item.constructorLines ++ [""] ++
  item.accessors.flatMap (·.lines) ++
  item.childrenLines ++ [""] ++
  item.cloneLines ++
  (item.mangle.map ("" :: ·.lines)).getD []

/-- The view of a node for generic traversal. -/
def viewLines (body : List String) : List String :=
  braced "fn as_node_ref(&self) -> NodeRef<'_>" body

def ClassItem.lines (item : ClassItem) : List String :=
  item.structLines ++
  block s!"impl {item.name}" item.methodLines ++
  if item.leaf then
    block s!"impl AsNodeRef for {item.name}" (viewLines [s!"NodeRef::{item.name}(self)"])
  else []

def FamilyItem.name (family : FamilyItem) : String := familyName family.cls

/-- A choice between the leaves. -/
def armLines (leaves : List String) (arm : String → String) : List String :=
  braced "match self" (leaves.map arm)

def FamilyItem.methodLines (family : FamilyItem) : List String :=
  braced "pub fn class_name(&self) -> &'static str"
    (armLines family.leaves fun leaf => s!"Self::{leaf}(_) => {leaf}::CLASS,") ++ [""] ++
  braced (childrenHead "visit")
    (armLines family.leaves fun leaf => s!"Self::{leaf}(node) => node.children(visit),") ++ [""] ++
  braced "pub fn structural_clone(&self) -> Self" (armLines family.leaves fun leaf =>
    s!"Self::{leaf}(node) => Self::{leaf}(node.structural_clone()),")

/-- The conversion of a leaf into a member of the family. -/
def FamilyItem.conversionLines (family : FamilyItem) (leaf : String) : List String :=
  block s!"impl From<{leaf}> for {family.name}"
    (braced s!"fn from(node: {leaf}) -> Self" [s!"Self::{leaf}(node)"])

def FamilyItem.lines (family : FamilyItem) : List String :=
  [s!"/// Concrete subclasses of `{family.cls}`.", "#[derive(Debug)]"] ++
  block s!"pub enum {family.name}" (family.leaves.map fun leaf => s!"{leaf}({leaf}),") ++
  block s!"impl {family.name}" family.methodLines ++
  block s!"impl AsNodeRef for {family.name}" (viewLines
    (armLines family.leaves fun leaf => s!"Self::{leaf}(node) => NodeRef::{leaf}(node),")) ++
  family.leaves.flatMap family.conversionLines

def Needs.importLines (needs : Needs) : List String :=
  (if needs.cell then ["use std::cell::OnceCell;"] else []) ++
  ["use std::fmt;"] ++
  if needs.weak then ["use std::rc::\x7bRc, Weak\x7d;"]
  else if needs.shared then ["use std::rc::Rc;"]
  else []

def externalImport (externals : List String) : List String :=
  if externals.isEmpty then []
  else ["", "#[allow(unused_imports)]",
    "use super::externals::\x7b" ++ ", ".intercalate externals ++ "\x7d;"]

def Needs.preludeLines (needs : Needs) : List String :=
  ["/// A deferred field was assigned twice.", "#[derive(Debug, Clone, PartialEq, Eq)]"] ++
  block "pub struct AlreadyAssigned" ["pub class: &'static str,", "pub field: &'static str,"] ++
  block "impl fmt::Display for AlreadyAssigned"
    (braced "fn fmt(&self, f: &mut fmt::Formatter<'_>) -> fmt::Result"
      ["write!(f, \"\x7b\x7d.\x7b\x7d is already assigned\", self.class, self.field)"]) ++
  ["impl std::error::Error for AlreadyAssigned \x7b\x7d", ""] ++
  (if needs.externalCopy then
    ["/// Copy routine for external types cloned with `@external_copy`."] ++
    block "pub trait ExternalCopy" ["fn external_copy(&self) -> Self;"]
  else []) ++
  (if needs.mappedCell then
    block "fn map_cell<T, U>(cell: &OnceCell<T>, f: impl FnOnce(&T) -> U) -> OnceCell<U>"
      (["let out = OnceCell::new();"] ++
        braced "if let Some(value) = cell.get()" ["let _ = out.set(f(value));"] ++
        ["out"])
  else []) ++
  ["/// Borrowed view of a node, for generic traversal."] ++
  block "pub trait AsNodeRef" ["fn as_node_ref(&self) -> NodeRef<'_>;"]

def nodeRefLines (leaves : List String) : List String :=
  ["/// Any concrete node.", "#[derive(Debug, Clone, Copy)]"] ++
  block "pub enum NodeRef<'a>" (leaves.map fun leaf => s!"{leaf}(&'a {leaf}),") ++
  block "impl<'a> NodeRef<'a>"
    (braced "pub fn class_name(&self) -> &'static str"
      (armLines leaves fun leaf => s!"NodeRef::{leaf}(_) => {leaf}::CLASS,") ++ [""] ++
    braced (childrenHead "visit")
      (armLines leaves fun leaf => s!"NodeRef::{leaf}(node) => node.children(visit),")) ++
  ["/// Pre-order walk over visitable edges."] ++
  block "pub fn walk(node: NodeRef<'_>, visit: &mut dyn FnMut(NodeRef<'_>))"
    ["visit(node);", "node.children(&mut |child| walk(child, &mut *visit));"]

/-- A model without classes gives the first line alone. -/
def SourceFile.lines (file : SourceFile) : List String :=
  "// Auto-generated by nodegen from the resolved node model. Do not edit." ::
  if file.classes.isEmpty then []
  else
    [""] ++ file.needs.importLines ++ externalImport file.externals ++ [""] ++
    file.needs.preludeLines ++ nodeRefLines file.leaves ++
    file.classes.flatMap (·.lines) ++ file.families.flatMap (·.lines)

def SourceFile.text (file : SourceFile) : String :=
  String.join (file.lines.map (· ++ "\n"))

end NodeModel.Source
