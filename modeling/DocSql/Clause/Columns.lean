import DocSql.Clause.Basic
import DocSql.Naming
import DocSql.Term.Expression
import DocSql.Term.Resolve

/-! # The SELECT list

Every item of the list has a name, under which the documents of the result hold its value.  The
names are pairwise different.
-/
namespace DocSql

/-- An item of the SELECT list. -/
structure SelectItem where
  term : Term
  /-- The field that holds the value in the result. -/
  name : String
  /-- The name that the query gives it. -/
  label : Option String

namespace SelectItem

/-- Whether the item is a column under its own name. -/
def isPlain (item : SelectItem) : Bool :=
  match item.term with
  | .column c => c.path == item.name
  | _ => false

/-- The value of the item in a projection. -/
def projection (item : SelectItem) : Compiled Value :=
  if item.isPlain then .ok (.bool true) else item.term.projected

/-- The token and the alias of an item. -/
def split : List Token → Compiled (Token × Option String)
  | [] => undecodable .emptySelectItem
  | [.aliased t label] => .ok (t, some label)
  | [t] => .ok (t, none)
  | first :: _ => undecodable (.unexpectedAfter first)

/-- The name of the item at a place of the list, before it is made unique. -/
def baseName (place : Nat) (label : Option String) (t : Term) : String :=
  match label, t.defaultName?, t.constant? with
  | some label, _, _ => label
  | none, some name, _ => name
  | none, none, some _ => s!"const_{place}"
  | none, none, none => s!"expr_{place}"

/-- Reads the items from a place on.  `taken` holds the names of those before. -/
def readAll (r : Reading) (taken : List String) (place : Nat) :
    List (List Token) → Compiled (List SelectItem)
  | [] => .ok []
  | piece :: pieces => do
    let (t, label) ← split piece
    let term ← r.resolve t
    let name := freshName taken (baseName place label term)
    let items ← readAll r (name :: taken) (place + 1) pieces
    return { term, name, label } :: items

end SelectItem

/-- The SELECT list. -/
structure Columns where
  items : List SelectItem
  /-- Whether an earlier stage has put every item under its name. -/
  materialized : Bool := false
  span : Span

namespace Columns

/-- Reads the SELECT list, which starts at the given token. -/
def read (r : Reading) (tokens : List Token) (start : Nat) : Compiled Columns :=
  if tokens.isEmpty then undecodable .selectWithoutColumns
  else do
    let items ← SelectItem.readAll { r with aliases := false } [] 0 (Token.splitCommas tokens)
    return { items, span := ⟨start, start + tokens.length⟩ }

/-- The scope in which the aliases of the list are known. -/
def enter (columns : Columns) (s : Scope) : Scope :=
  { s with
    aliases := s.aliases.insertAll
      (columns.items.filterMap fun item => item.label.map fun label => (label, item.term)) }

/-- The names of the items. -/
def names (columns : Columns) : List String := columns.items.map (·.name)

/-- Whether an item has to be computed or renamed. -/
def needsPipeline (columns : Columns) : Bool := columns.items.any fun item => !item.isPlain

/-- Whether an item is made of aggregates. -/
def hasAggregates (columns : Columns) : Bool :=
  columns.items.any fun item => item.term.containsAggregate

/-- The values of the items, where all are constant. -/
def constants? (columns : Columns) : Option (List Value) :=
  columns.items.mapM fun item => item.term.constant?

/-- Whether the list only counts rows. -/
def isCountAll (columns : Columns) : Bool :=
  match columns.items with
  | [item] => item.term.isCountAll
  | _ => false

/-- The first item with the given term. -/
def byTerm? (columns : Columns) (t : Term) : Option SelectItem :=
  columns.items.find? fun item => item.term.same t

/-- The first item with the given name or alias. -/
def byName? (columns : Columns) (name : String) : Option SelectItem :=
  columns.items.find? fun item => item.name == name || item.label == some name

/-- The item with the given name or alias, which must be there. -/
def byName (columns : Columns) (name : String) : Compiled SelectItem :=
  match columns.byName? name with
  | some item => .ok item
  | none => undecodable (.unknownAlias name)

/-- The value of an item in the last projection. -/
def project (columns : Columns) (item : SelectItem) : Compiled (String × Value) := do
  let value ← if columns.materialized then pure (.bool true) else item.projection
  return (item.name, value)

end Columns

instance : Clause Columns where
  span := Columns.span
  stages columns := do
    let fields ← columns.items.mapM columns.project
    return [.field "$project" (.object fields)]
  find columns args :=
    if columns.needsPipeline then undecodable .columnsNeedPipeline
    else .ok { args with projection := columns.names }

end DocSql
