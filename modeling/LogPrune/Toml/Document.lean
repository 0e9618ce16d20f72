import LogPrune.Toml.Basic

/-!
# LogPrune.Toml.Document

Putting a document together from its statements.

A header opens a table, and assignments go to the table opened last.  Tables
come into being in three ways, which decides what may be added to them later:

1. a table under a header of its own is opened once, and only by its header;
2. a table on the way to another header may still get a header of its own,
   and dotted keys may pass through it but not end in it;
3. a table made by dotted keys may be added to by dotted keys, but gets no
   header.

A header in double brackets adds a table to an array of tables; a path
through such an array leads to its last table.  No key is assigned twice, and
nothing passes through a value.
-/

namespace LogPrune
namespace Toml

/-- How a table came into being. -/
inductive Origin
  | header
  /-- On the way to another header. -/
  | passage
  /-- By dotted keys. -/
  | dotted
  deriving DecidableEq, Repr

/-- What a key of a document under construction stands for. -/
inductive Item
  | value (v : Toml)
  | table (origin : Origin) (entries : List (String × Item))
  /-- An array of tables, last one first. -/
  | tables (newestFirst : List (List (String × Item)))
  deriving Inhabited

/-- The entries of a table under construction. -/
abbrev Entries := List (String × Item)

/-- A statement of a document. -/
inductive Statement
  | header (path : List String) (key : String)
  | arrayHeader (path : List String) (key : String)
  | assign (path : List String) (key : String) (value : Toml)
  deriving Repr

namespace Entries

/-- Entries in which the item of a key is another one. -/
def replace (entries : Entries) (key : String) (item : Item) : Entries :=
  entries.map fun e => if e.1 = key then (key, item) else e

/-- Assigns a value at a dotted key, of which the last part is given apart. -/
def assign (key : String) (v : Toml) : List String → Entries → Option Entries
  | [], es => if (find? key es).isSome then none else some (es ++ [(key, .value v)])
  | k :: ks, es =>
    match find? k es with
    | none => (assign key v ks []).map fun inner => es ++ [(k, .table .dotted inner)]
    | some (.table .passage inner) =>
      if ks = [] then none
      else (assign key v ks inner).map fun inner => es.replace k (.table .passage inner)
    | some (.table .dotted inner) =>
      (assign key v ks inner).map fun inner => es.replace k (.table .dotted inner)
    | some (.tables (newest :: older)) =>
      if ks = [] then none
      else (assign key v ks newest).map fun newest => es.replace k (.tables (newest :: older))
    | _ => none

/-- Changes the table at the path of a header. -/
def update (f : Entries → Option Entries) : List String → Entries → Option Entries
  | [], es => f es
  | k :: ks, es =>
    match find? k es with
    | none => (update f ks []).map fun inner => es ++ [(k, .table .passage inner)]
    | some (.table origin inner) =>
      (update f ks inner).map fun inner => es.replace k (.table origin inner)
    | some (.tables (newest :: older)) =>
      (update f ks newest).map fun newest => es.replace k (.tables (newest :: older))
    | _ => none

/-- Opens the table of a key. -/
def openTable (key : String) (es : Entries) : Option Entries :=
  match find? key es with
  | none => some (es ++ [(key, .table .header [])])
  | some (.table .passage inner) => some (es.replace key (.table .header inner))
  | _ => none

/-- Adds a table to the array of tables of a key. -/
def openArrayTable (key : String) (es : Entries) : Option Entries :=
  match find? key es with
  | none => some (es ++ [(key, .tables [[]])])
  | some (.tables older) => some (es.replace key (.tables ([] :: older)))
  | _ => none

end Entries

mutual

/-- The value that an item stands for. -/
def Item.toValue : Item → Toml
  | .value v => v
  | .table _ entries => .table (entriesToValues entries)
  | .tables newestFirst => .array (tablesToValues newestFirst).reverse

/-- The values of entries. -/
def entriesToValues : Entries → List (String × Toml)
  | [] => []
  | (key, item) :: es => (key, item.toValue) :: entriesToValues es

/-- The values of tables. -/
def tablesToValues : List Entries → List Toml
  | [] => []
  | entries :: rest => .table (entriesToValues entries) :: tablesToValues rest

end

/-! ## Documents -/

/-- A document under construction, and the path of the table opened last. -/
structure Document where
  root : Entries := []
  opened : List String := []

namespace Document

/-- Adds a statement. -/
def step? (d : Document) : Statement → Option Document
  | .header path key =>
    (Entries.update (Entries.openTable key) path d.root).map (⟨·, path ++ [key]⟩)
  | .arrayHeader path key =>
    (Entries.update (Entries.openArrayTable key) path d.root).map (⟨·, path ++ [key]⟩)
  | .assign path key v =>
    (Entries.update (Entries.assign key v path) d.opened d.root).map (⟨·, d.opened⟩)

end Document

/-- The table that statements describe. -/
def ofStatements? (statements : List Statement) : Option Toml :=
  (statements.foldlM Document.step? {}).map fun d => .table (entriesToValues d.root)

/-- The table that the assignments within braces describe. -/
def ofAssignments? (assignments : List (List String × String × Toml)) : Option Toml :=
  (assignments.foldlM (fun es (path, key, v) => Entries.assign key v path es) []).map fun es =>
    .table (entriesToValues es)

end Toml
end LogPrune
