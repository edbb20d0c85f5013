/-
What the statements of a TOML text make together: a table of tables and values.

Two things are remembered of the ways to tables while a document is made. A way is *implied* when a
dotted key or a header passes through a table that was never written out; such a table may still be
written out once. A way is an *array* when the last thing written on it is a value in brackets. A key that is
there already may only be written again on an implied way: an array then gives place to what is
written, anything else stays.
-/
import Dispatch.Toml.Statement

namespace Dispatch.Toml

/-- What a key of a document stands for. -/
inductive Node where
  /-- A value that no header and no dotted key can lead into. -/
  | value (e : Expr)
  | table (entries : List (Key × Node))
  /-- An array of tables, of which the last one is being written. -/
  | tables (elements : List (List (Key × Node)))

/-- A table, in the order of writing. -/
abbrev Table := List (Key × Node)

namespace Table

/-- The table with a key set, in its old place if it has one. -/
def set (key : Key) (node : Node) : Table → Table
  | [] => [(key, node)]
  | entry :: rest => if entry.1 = key then (key, node) :: rest else entry :: set key node rest

/-- The table at the end of a way; of an array of tables, the last one is meant. -/
def at? : KeyPath → Table → Option Table
  | [], t => some t
  | key :: path, t =>
    match t.lookup key with
    | some (.table entries) => at? path entries
    | some (.tables elements) => elements.getLast?.bind (at? path)
    | _ => none

/-- The table with the table at the end of a way changed. -/
def alter (change : Table → Table) : KeyPath → Table → Option Table
  | [], t => some (change t)
  | key :: path, t =>
    match t.lookup key with
    | some (.table entries) => (alter change path entries).map fun entries => set key (.table entries) t
    | some (.tables elements) =>
      match elements.getLast? with
      | none => none
      | some last =>
        (alter change path last).map fun last => set key (.tables (elements.dropLast ++ [last])) t
    | _ => none

/-- The table with a node at the end of a dotted key; tables on the way are made. -/
def setPath (node : Node) : KeyPath → Table → Option Table
  | [], t => some t
  | [key], t => some (set key node t)
  | key :: path, t =>
    match t.lookup key with
    | none => (setPath node path []).map fun entries => set key (.table entries) t
    | some (.table entries) => (setPath node path entries).map fun entries => set key (.table entries) t
    | some _ => none

end Table

/-- A document that is being made. -/
structure Draft where
  root : Table
  /-- The ways to tables that were never written out. -/
  implied : List KeyPath
  /-- The ways on which a value in brackets was written last. -/
  arrays : List KeyPath

namespace Draft

def empty : Draft := ⟨[], [], []⟩

/-- Note that a way is implied. -/
def imply (d : Draft) (path : KeyPath) : Draft := { d with implied := path :: d.implied }

/-- Note that a way is implied no longer. -/
def settle (d : Draft) (path : KeyPath) : Draft := { d with implied := d.implied.filter (· ≠ path) }

/-- Note whether the last thing written on a way is a value in brackets. -/
def noteArray (d : Draft) (path : KeyPath) (isArray : Bool) : Draft :=
  let others := d.arrays.filter (· ≠ path)
  { d with arrays := if isArray then path :: others else others }

/-- The draft with the table at the end of a way changed. -/
def alter (d : Draft) (context : KeyPath) (change : Table → Table) : Option Draft :=
  (Table.alter change context d.root).map fun root => { d with root }

/-- Write a key of the table at the end of a way. -/
def define (d : Draft) (context : KeyPath) (key : Key) (node : Node) : Option Draft :=
  let path := context ++ [key]
  match Table.at? context d.root with
  | none => none
  | some t =>
    match t.lookup key with
    | none => d.alter context (Table.set key node)
    | some _ =>
      if path ∈ d.implied then
        if path ∈ d.arrays then (d.settle path).alter context (Table.set key node)
        else some (d.settle path)
      else none

/-- See that a key leads into a table; one that is missing is made and implied. -/
def ensure (d : Draft) (context : KeyPath) (key : Key) : Option Draft :=
  match Table.at? context d.root with
  | none => none
  | some t =>
    match t.lookup key with
    | none => (d.imply (context ++ [key])).alter context (Table.set key (.table []))
    | some (.value _) => none
    | some _ => some d

/-- See that a way leads to a table. -/
def ensureAll (d : Draft) (context : KeyPath) : KeyPath → Option Draft
  | [] => some d
  | key :: path => (d.ensure context key).bind fun d => d.ensureAll (context ++ [key]) path

/-- One more table in the array of tables at a key. -/
def append (d : Draft) (context : KeyPath) (key : Key) : Option Draft :=
  match Table.at? context d.root with
  | none => none
  | some t =>
    match t.lookup key with
    | none => d.alter context (Table.set key (.tables [[]]))
    | some (.tables elements) => d.alter context (Table.set key (.tables (elements ++ [[]])))
    | some _ => none

/-- Go to a table that is written out now, in an array of tables or not. -/
def enter (d : Draft) (path : KeyPath) (inArray : Bool) : Option Draft :=
  match path.getLast? with
  | none => some d
  | some key =>
    let context := path.dropLast
    (d.ensureAll [] context).bind fun d =>
      if inArray then d.append context key else d.define context key (.table [])

/-- Go through the tables that a dotted key leads through; each is implied. -/
def pass (d : Draft) (context : KeyPath) : KeyPath → Option Draft
  | [] => some d
  | key :: path =>
    let context := context ++ [key]
    ((d.imply context).enter context false).bind fun d => d.pass context path

/-- The way on which an array is noted for a key: an empty key inside a table stands for the table. -/
def noted (context : KeyPath) (key : Key) : KeyPath :=
  if key.isEmpty ∧ !context.isEmpty then context else context ++ [key]

/-- Whether a value is written in brackets. -/
def isArray : Expr → Bool
  | .array _ => true
  | _ => false

mutual

/-- What writing a value at a key makes of the draft before the key itself is written, and the node
that the value is. -/
def place (d : Draft) (context : KeyPath) (key : Key) (inArray : Bool) : Expr → Option (Draft × Node)
  | .scalar v => some (d, .value (.scalar v))
  | .array elements =>
    (placeAll (d.noteArray (noted context key) true) context key elements).map fun d =>
      (d, .value (.array elements))
  | .inline entries =>
    let path := context ++ [key]
    match (d.imply path).enter path inArray with
    | none => none
    | some d => (fill d path [] entries).map fun (d, table) => (d, .table table)

/-- The same for the elements of an array. -/
def placeAll (d : Draft) (context : KeyPath) (key : Key) : List Expr → Option Draft
  | [] => some d
  | e :: es => (place d context key true e).bind fun (d, _) => placeAll d context key es

/-- Write the entries of a table in braces. The table is also made on its own, beside the document. -/
def fill (d : Draft) (context : KeyPath) (table : Table) : List (KeyPath × Expr) → Option (Draft × Table)
  | [] => some (d, table)
  | (path, e) :: entries =>
    match path.getLast? with
    | none => none
    | some key =>
      let parents := path.dropLast
      let inner := context ++ parents
      (d.pass context parents).bind fun d =>
        (place d inner key false e).bind fun (d, node) =>
          (d.define inner key node).bind fun d =>
            (Table.setPath node path table).bind fun table =>
              fill (d.noteArray (noted inner key) (isArray e)) context table entries

end

/-- Write a value at a dotted key. -/
def assign (d : Draft) (context path : KeyPath) (e : Expr) : Option Draft :=
  (fill d context [] [(path, e)]).map Prod.fst

/-- Write a statement; `context` is the way of the header above it. -/
def write (d : Draft) (context : KeyPath) : Statement → Option (Draft × KeyPath)
  | .table path => (d.enter path false).map fun d => (d.noteArray path false, path)
  | .element path => (d.enter path true).map fun d => (d.noteArray path false, path)
  | .assign path e => (d.assign context path e).map fun d => (d, context)

/-- Write statements in turn. -/
def writeAll (d : Draft) (context : KeyPath) : List Statement → Option Draft
  | [] => some d
  | s :: ss => (d.write context s).bind fun (d, context) => d.writeAll context ss

end Draft

/-- The table that a text makes. -/
def document? (data : Bytes) : Option Table := do
  let cs ← source? data
  let ss ← statements cs
  let d ← Draft.empty.writeAll [] ss
  return d.root

end Dispatch.Toml
