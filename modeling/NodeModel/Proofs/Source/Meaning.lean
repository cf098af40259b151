import NodeModel.Arena.Clone
import NodeModel.Source.Item

/-! What the emitted methods do. Nodes are objects on a heap and known by their places there; what
is borrowed stands for itself. Steps that the types of the emitted source rule out have no meaning:
they yield nothing. -/
namespace NodeModel.Source

open Arena (NodeId ExternalRef Copier)

inductive Data where
  | text (value : String)
  | flag (value : Bool)
  | number (value : Int64)
  /-- A value of an external type that is not shared yet. -/
  | foreign (ref : ExternalRef)
  | external (ref : ExternalRef)
  | strong (id : NodeId)
  | weak (id : NodeId)
  | vec (items : List Data)
  | option (contents : Option Data)
  | cell (contents : Option Data)
  | iterator (items : List Data)
  | object (cls : String) (members : List (String × Data))

structure Object where
  cls : String
  members : List (String × Data)

def Object.put (object : Object) (name : String) (data : Data) : Object :=
  { object with members := object.members.map fun member =>
      if member.1 = name then (name,data) else member }

structure Memory where
  heap : Array Object
  /-- The external values handed to the copier, in order. -/
  copied : List ExternalRef := []

abbrev Action := StateT Memory Option

def Yields {α : Type} (action : Action α) (before : Memory) (result : α) (after : Memory) : Prop :=
  action.run before = some (result,after)

/-- What a method needs to know: the classes that can stand behind an edge, how external values are
copied, and how an object is cloned. -/
structure Context where
  leaves : List String
  copier : Copier
  again : Object → Action Object

/-- The node that an edge leads to. -/
def Context.behind (context : Context) (id : NodeId) : Action Object := do
  let object ← liftM (← getThe Memory).heap[id]?
  if context.leaves.contains object.cls then return object else failure

/-- A clone copies contents, and edges as they are. -/
def Data.cloned? : Data → Option Data
  | .foreign _ | .iterator _ | .object _ _ => none
  | data => some data

def Data.copied? : Data → Option Data
  | .flag value => some (.flag value)
  | .number value => some (.number value)
  | _ => none

def Data.text? : Data → Option Data
  | .text value => some (.text value)
  | _ => none

def Data.slice? : Data → Option Data
  | .vec items => some (.vec items)
  | _ => none

def Data.items? : Data → Option (List Data)
  | .vec items => some items
  | _ => none

def Method.result? : Method → Data → Option Data
  | .clone, data => data.cloned?
  | .asRef, .option contents => some (.option contents)
  | .get, .cell contents => some (.option contents)
  | .iter, .vec items => some (.iterator items)
  | .iter, .option contents => some (.iterator contents.toList)
  | .intoIter, .option contents => some (.iterator contents.toList)
  | .flatten, .iterator items => (items.mapM Data.items?).map fun lists => .iterator lists.flatten
  | .collect, .iterator items => some (.vec items)
  | .copied, .option contents => (contents.mapM Data.copied?).map .option
  | .asStr, .option contents => (contents.mapM Data.text?).map .option
  | .asSlice, .option contents => (contents.mapM Data.slice?).map .option
  | _, _ => none

def Method.act (context : Context) : Method → Data → Action Data
  | .upgrade, .option none => return .option none
  | .upgrade, .option (some (.weak id)) => do
    return .option ((← getThe Memory).heap[id]?.map fun _ => .strong id)
  | .structuralClone, .strong id => do
    let clone ← context.again (← context.behind id)
    return .object clone.cls clone.members
  | method, data => liftM (method.result? data)

def Function.act (context : Context) : Function → Data → Action Data
  | .present, data => return .option (some data)
  | .shared, .object cls members => modifyGet fun memory =>
    (.strong memory.heap.size,{ memory with heap := memory.heap.push ⟨cls,members⟩ })
  | .shared, .foreign ref => return .external ref
  | .downgrade, .strong id => return .weak id
  | .once, data => return .iterator [data]
  | .externalCopy type, .external ref =>
    if ref.type = type then modifyGet fun memory =>
      (.foreign (context.copier memory.copied ref),{ memory with copied := memory.copied ++ [ref] })
    else failure
  | _, _ => failure

def Fallback.data : Fallback → Data
  | .emptyText => .text ""
  | .isFalse => .flag false
  | .zero => .number 0
  | .emptySlice => .vec []

structure Scope where
  members : List (String × Data) := []
  params : List (String × Data) := []
  locals : List (String × Data) := []

def Scope.bind (scope : Scope) (name : String) (data : Data) : Scope :=
  { scope with locals := (name,data) :: scope.locals }

def Expr.act (context : Context) : Expr → Scope → Action Data
  | .member field, scope => liftM (scope.members.lookup field)
  | .param field, scope => liftM (scope.params.lookup field)
  | .variable name, scope => liftM (scope.locals.lookup name)
  | .absent, _ => return .option none
  | .emptyCell, _ => return .cell none
  | .call receiver method, scope => do method.act context (← receiver.act context scope)
  | .apply function argument, scope => do function.act context (← argument.act context scope)
  | .map receiver name body, scope => do
    match ← receiver.act context scope with
    | .option none => return .option none
    | .option (some data) => return .option (some (← body.act context (scope.bind name data)))
    | .iterator items =>
      return .iterator (← items.mapM fun data => body.act context (scope.bind name data))
    | _ => failure
  | .mapCell cell name body, scope => do
    match ← cell.act context scope with
    | .cell none => return .cell none
    | .cell (some data) => return .cell (some (← body.act context (scope.bind name data)))
    | _ => failure
  | .block name value body, scope => do
    body.act context (scope.bind name (← value.act context scope))
  | .unwrapOr value fallback, scope => do
    match ← value.act context scope with
    | .option contents => return contents.getD fallback.data
    | _ => failure

def literal (context : Context) (scope : Scope) (entries : List (String × Expr)) :
    Action (List (String × Data)) :=
  entries.mapM fun entry => do return (entry.1,← entry.2.act context scope)

def ClassItem.construct (context : Context) (item : ClassItem) (arguments : List Data) :
    Action Object := do
  if arguments.length = item.params.length then
    let scope : Scope := { params := (item.params.map (·.field)).zip arguments }
    return ⟨item.name,← literal context scope item.initials⟩
  else failure

def Accessor.read (context : Context) (accessor : Accessor) (object : Object) : Action Data :=
  (accessor.getter.expr accessor.field).act context { members := object.members }

structure AlreadyAssigned where
  cls : String
  field : String
deriving DecidableEq

def Accessor.assign (context : Context) (accessor : Accessor) (object : Object) (argument : Data) :
    Action (Except AlreadyAssigned Object) := do
  let value ← accessor.setter.expr.act context { locals := [("value",argument)] }
  match object.members.lookup accessor.field with
  | some (.cell none) => return .ok (object.put accessor.field (.cell (some value)))
  | some (.cell (some _)) => return .error ⟨object.cls,accessor.field⟩
  | _ => failure

/-- A child is visited; behind a weak edge it may be gone. -/
def ChildLoop.visit (context : Context) (loop : ChildLoop) : Data → Action (List NodeId)
  | .strong id => do
    if loop.weak then failure
    let _ ← context.behind id
    return [id]
  | .weak id => do
    if !loop.weak then failure
    if (← getThe Memory).heap[id]?.isNone then return []
    let _ ← context.behind id
    return [id]
  | _ => failure

def ChildLoop.visits (context : Context) (object : Object) (loop : ChildLoop) :
    Action (List NodeId) := do
  match ← loop.source.act context { members := object.members } with
  | .iterator items => return (← items.mapM (loop.visit context)).flatten
  | _ => failure

def ClassItem.visits (context : Context) (item : ClassItem) (object : Object) :
    Action (List NodeId) := do
  return (← item.children.mapM (·.visits context object)).flatten

def ClassItem.clone (context : Context) (item : ClassItem) (object : Object) : Action Object := do
  let entries := item.clones.map fun entry => (entry.field,entry.expr)
  return ⟨item.name,← literal context { members := object.members } entries⟩

def SourceFile.class? (file : SourceFile) (name : String) : Option ClassItem :=
  file.classes.find? (·.name == name)

/-- The structural clone of an object. Each clone within another one takes up fuel. -/
def SourceFile.clone (file : SourceFile) (copier : Copier) : Nat → Object → Action Object
  | 0, _ => failure
  | fuel + 1, object => do
    let item ← liftM (file.class? object.cls)
    item.clone ⟨file.leaves,copier,file.clone copier fuel⟩ object

section

variable {α β : Type} {before middle after : Memory}

theorem Yields.pure (result : α) (memory : Memory) :
    Yields (Pure.pure result) memory result memory := rfl

theorem Yields.bind {action : Action α} {next : α → Action β} {first : α} {second : β}
    (left : Yields action before first middle) (right : Yields (next first) middle second after) :
    Yields (action >>= next) before second after := by
  unfold Yields at left ⊢
  rw [StateT.run_bind,left]
  exact right

theorem Yields.lift {found : Option α} {result : α} (known : found = some result)
    (memory : Memory) : Yields (liftM found) memory result memory := by
  subst known
  rfl

variable {context : Context} {scope : Scope} {expr body : Expr} {data result : Data}

theorem Expr.member_yields {field : String} (found : scope.members.lookup field = some data)
    (memory : Memory) : Yields ((Expr.member field).act context scope) memory data memory :=
  .lift found memory

theorem Expr.param_yields {field : String} (found : scope.params.lookup field = some data)
    (memory : Memory) : Yields ((Expr.param field).act context scope) memory data memory :=
  .lift found memory

theorem Expr.variable_yields {name : String} (found : scope.locals.lookup name = some data)
    (memory : Memory) : Yields ((Expr.variable name).act context scope) memory data memory :=
  .lift found memory

theorem Expr.call_yields {method : Method}
    (receiver : Yields (expr.act context scope) before data middle)
    (done : Yields (method.act context data) middle result after) :
    Yields ((expr.call method).act context scope) before result after :=
  receiver.bind done

theorem Expr.apply_yields {function : Function}
    (argument : Yields (expr.act context scope) before data middle)
    (done : Yields (function.act context data) middle result after) :
    Yields ((Expr.apply function expr).act context scope) before result after :=
  argument.bind done

theorem Expr.map_none (receiver : Yields (expr.act context scope) before (.option none) after)
    (name : String) (body : Expr) :
    Yields ((expr.map name body).act context scope) before (.option none) after :=
  receiver.bind (.pure _ _)

theorem Expr.map_some {name : String}
    (receiver : Yields (expr.act context scope) before (.option (some data)) middle)
    (done : Yields (body.act context (scope.bind name data)) middle result after) :
    Yields ((expr.map name body).act context scope) before (.option (some result)) after :=
  receiver.bind (done.bind (.pure _ _))

theorem Expr.map_iterator {name : String} {items results : List Data}
    (receiver : Yields (expr.act context scope) before (.iterator items) middle)
    (each : Yields (items.mapM fun item => body.act context (scope.bind name item)) middle results
      after) :
    Yields ((expr.map name body).act context scope) before (.iterator results) after :=
  receiver.bind (each.bind (.pure _ _))

theorem Expr.mapCell_none (cell : Yields (expr.act context scope) before (.cell none) after)
    (name : String) (body : Expr) :
    Yields ((expr.mapCell name body).act context scope) before (.cell none) after :=
  cell.bind (.pure _ _)

theorem Expr.mapCell_some {name : String}
    (cell : Yields (expr.act context scope) before (.cell (some data)) middle)
    (done : Yields (body.act context (scope.bind name data)) middle result after) :
    Yields ((expr.mapCell name body).act context scope) before (.cell (some result)) after :=
  cell.bind (done.bind (.pure _ _))

theorem Expr.block_yields {name : String}
    (value : Yields (expr.act context scope) before data middle)
    (done : Yields (body.act context (scope.bind name data)) middle result after) :
    Yields ((Expr.block name expr body).act context scope) before result after :=
  value.bind done

theorem Expr.unwrapOr_yields {contents : Option Data}
    (value : Yields (expr.act context scope) before (.option contents) after)
    (fallback : Fallback) :
    Yields ((expr.unwrapOr fallback).act context scope) before (contents.getD fallback.data)
      after :=
  value.bind (.pure _ _)

end

end NodeModel.Source
