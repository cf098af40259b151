import NodeModel.Source.Identifier

/-! Expressions in the bodies of the emitted methods. Members and parameters are known by the names
of their fields; identifiers are made when the text is written. -/
namespace NodeModel.Source

/-- Methods that take no argument of their own. -/
inductive Method where
  | clone
  | asRef
  | get
  | iter
  | intoIter
  | flatten
  | collect
  | copied
  | asStr
  | asSlice
  /-- The node behind a weak edge, if it is still alive. -/
  | upgrade
  | structuralClone
deriving DecidableEq, Repr

def Method.text : Method → String
  | .clone => ".clone()"
  | .asRef => ".as_ref()"
  | .get => ".get()"
  | .iter => ".iter()"
  | .intoIter => ".into_iter()"
  | .flatten => ".flatten()"
  | .collect => ".collect()"
  | .copied => ".copied()"
  | .asStr => ".map(String::as_str)"
  | .asSlice => ".map(Vec::as_slice)"
  | .upgrade => ".and_then(Weak::upgrade)"
  | .structuralClone => ".structural_clone()"

/-- Functions of one argument. -/
inductive Function where
  | present
  | shared
  | downgrade
  | once
  | externalCopy (type : String)
deriving DecidableEq, Repr

def Function.text (argument : String) : Function → String
  | .present => s!"Some({argument})"
  | .shared => s!"Rc::new({argument})"
  | .downgrade => s!"Rc::downgrade({argument})"
  | .once => s!"std::iter::once(&{argument})"
  | .externalCopy type => s!"<{type} as ExternalCopy>::external_copy({argument})"

/-- What stands in for a missing value. -/
inductive Fallback where
  | emptyText
  | isFalse
  | zero
  | emptySlice
deriving DecidableEq, Repr

def Fallback.text : Fallback → String
  | .emptyText => "\"\""
  | .isFalse => "false"
  | .zero => "0"
  | .emptySlice => "&[]"

inductive Expr where
  | member (field : String)
  | param (field : String)
  | variable (name : String)
  | absent
  | emptyCell
  | call (receiver : Expr) (method : Method)
  | apply (function : Function) (argument : Expr)
  /-- A closure over what the receiver holds. -/
  | map (receiver : Expr) (name : String) (body : Expr)
  | mapCell (cell : Expr) (name : String) (body : Expr)
  | block (name : String) (value body : Expr)
  | unwrapOr (value : Expr) (fallback : Fallback)
deriving DecidableEq, Repr

def Expr.render : Expr → String
  | .member field => s!"self.{fieldIdent field}"
  | .param field => fieldIdent field
  | .variable name => name
  | .absent => "None"
  | .emptyCell => "OnceCell::new()"
  | .call receiver method => receiver.render ++ method.text
  | .apply function argument => function.text argument.render
  | .map receiver name body => s!"{receiver.render}.map(|{name}| {body.render})"
  | .mapCell cell name body => s!"map_cell(&{cell.render}, |{name}| {body.render})"
  | .block name value body => s!"\x7b let {name} = &{value.render}; {body.render} \x7d"
  | .unwrapOr value fallback => s!"{value.render}.unwrap_or({fallback.text})"

end NodeModel.Source
