/-! TOML values and the tables they are collected in. -/
namespace NodeModel.Toml

/-- How a table came about, which decides how it may grow. -/
inductive Origin where
  /-- Written in one piece; closed. -/
  | inline
  /-- Named on the way to another table by a header. -/
  | implied
  /-- Opened by its own header. -/
  | header
  /-- Named on the way to a value by a dotted key. -/
  | dotted
deriving DecidableEq, Repr

inductive Value where
  | text (value : String)
  /-- A number or a truth value. -/
  | scalar
  /-- A date, a time or both. -/
  | date
  | array (items : List Value)
  | table (origin : Origin) (entries : List (String × Value))
  /-- Tables under one name, each opened by a header in double brackets. -/
  | tables (elements : List (List (String × Value)))
deriving Repr

abbrev Entries := List (String × Value)

namespace Entries

def value? (entries : Entries) (key : String) : Option Value :=
  (entries.find? (·.1 == key)).map (·.2)

def replace (entries : Entries) (key : String) (value : Value) : Entries :=
  entries.map fun entry => if entry.1 == key then (key, value) else entry

/-- Changes the entry of a key, or adds it. Nothing comes of it if `change` refuses. -/
def alter (entries : Entries) (key : String) (change : Option Value → Option Value) :
    Option Entries :=
  match entries.value? key with
  | none => (change none).map fun value => entries ++ [(key, value)]
  | some old => (change (some old)).map (entries.replace key)

/-- Adds a value under a dotted key. A key can be given once. The table it is added to has to stem
from dotted keys; on the way there, tables named only on the way to another header, and the last of
a list of tables, can be passed through. -/
def add (value : Value) : List String → Entries → Option Entries
  | [], _ => none
  | [key], entries => entries.alter key fun
    | none => some value
    | some _ => none
  | key :: rest, entries => entries.alter key fun
    | none => (add value rest []).map (.table .dotted)
    | some (.table .dotted inner) => (add value rest inner).map (.table .dotted)
    | some (.table .implied inner) =>
      if rest.length ≤ 1 then none else (add value rest inner).map (.table .implied)
    | some (.tables elements) =>
      match elements.getLast? with
      | none => none
      | some last =>
        if rest.length ≤ 1 then none
        else (add value rest last).map fun last => .tables (elements.dropLast ++ [last])
    | some _ => none

/-- Changes what a path of headers leads to. A list of tables leads to its last one. -/
def within (change : Entries → Option Entries) : List String → Entries → Option Entries
  | [], entries => change entries
  | key :: rest, entries => entries.alter key fun
    | none => (within change rest []).map (.table .implied)
    | some (.table .inline _) => none
    | some (.table origin inner) => (within change rest inner).map (.table origin)
    | some (.tables elements) =>
      match elements.getLast? with
      | none => none
      | some last => (within change rest last).map fun last => .tables (elements.dropLast ++ [last])
    | some _ => none

/-- Opens the table of a header. A table has one header at most. -/
def openTable (path : List String) (entries : Entries) : Option Entries :=
  match path.getLast? with
  | none => none
  | some key => entries.within (fun inner => inner.alter key fun
      | none => some (.table .header [])
      | some (.table .implied inner) => some (.table .header inner)
      | some _ => none) path.dropLast

/-- Adds a table to the list of a header in double brackets. -/
def openElement (path : List String) (entries : Entries) : Option Entries :=
  match path.getLast? with
  | none => none
  | some key => entries.within (fun inner => inner.alter key fun
      | none => some (.tables [[]])
      | some (.tables elements) => some (.tables (elements ++ [[]]))
      | some _ => none) path.dropLast

end Entries

end NodeModel.Toml
