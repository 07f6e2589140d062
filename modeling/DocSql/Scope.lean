import DocSql.Fault

/-! # Scopes

What the names and the placeholders of a query refer to while it is compiled: the bound parameters,
the tables under the names they have in the query, the aliases of the SELECT list, and the
sub-selects that have been given a field of their own.
-/
namespace DocSql

/-- A sub-select whose column is put into a field as a list. -/
structure NestedList where
  /-- The field. -/
  name : String
  subselect : Subselect

/-- The stages that fill the field: the rows of the sub-select first, then their column alone. -/
def NestedList.stages (n : NestedList) : List Value :=
  [.field "$lookup" (.object
      [("from", .string n.subselect.collection), ("pipeline", .array n.subselect.pipeline),
        ("as", .string n.name)]),
    .field "$addFields" (.field n.name (.field "$map" (.object
      [("input", .path n.name), ("as", .string "row"),
        ("in", .string ("$$row." ++ n.subselect.field))])))]

/-- What names and placeholders refer to. -/
structure Scope where
  params : List Value
  /-- Tables: the name in the query, and the collection. -/
  tables : Entries String := []
  /-- The name of the first table. -/
  left : Option String := none
  /-- The terms of the SELECT list that have an alias. -/
  aliases : Entries Term := []
  nested : List NestedList := []

namespace Scope

/-- Adds a table. -/
def addTable (s : Scope) (visible collection : String) : Scope :=
  { s with tables := s.tables.insert visible collection }

/-- Adds the first table. -/
def setLeftTable (s : Scope) (visible collection : String) : Scope :=
  { s.addTable visible collection with left := some visible }

/-- The name of the first table. -/
def leftTable (s : Scope) : Compiled String :=
  match s.left with
  | some visible => .ok visible
  | none => undecodable .columnBeforeFrom

/-- The collection of the first table. -/
def leftCollection (s : Scope) : Compiled String := do
  let visible ← s.leftTable
  match s.tables.get? visible with
  | some collection => return collection
  | none => undecodable (.unknownTable visible)

/-- The name of the table that a qualifier refers to: a name in the query, else the first table with
that collection. -/
def resolveTable (s : Scope) (qualifier : String) : Compiled String :=
  if s.tables.contains qualifier then .ok qualifier
  else match s.tables.find? fun (_, collection) => collection == qualifier with
    | some (visible, _) => .ok visible
    | none => undecodable (.unknownQualifier qualifier)

/-- Whether a name is that of the first table. -/
def isLeft (s : Scope) (visible : String) : Bool := s.left == some visible

/-- The value bound to a placeholder. -/
def param (s : Scope) (index : Nat) : Compiled Value :=
  match s.params[index]? with
  | some value => .ok value
  | none => undecodable (.placeholderOutOfRange index s.params.length)

/-- Gives a sub-select a field of its own. -/
def addNested (s : Scope) (subselect : Subselect) : String × Scope :=
  let name := s!"_nested_in_{s.nested.length}"
  (name, { s with nested := s.nested ++ [⟨name, subselect⟩] })

/-- The scope of a sub-select: it shares the parameters only. -/
def child (s : Scope) : Scope := { params := s.params }

/-- The column of a table. -/
def column (s : Scope) (table name : String) : Term :=
  .column { table, column := name, path := if s.isLeft table then name else table ++ "." ++ name }

end Scope

end DocSql
