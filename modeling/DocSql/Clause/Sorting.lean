import DocSql.Clause.Grouping

/-! # ORDER BY

The keys are read first, and resolved to fields when it is known what the stages before leave: the
documents themselves, the rows of a DISTINCT, or the outputs of a grouping.  Null is below every
other value, so a placement of nulls is accepted only where it says just that.
-/
namespace DocSql

/-- A key of an order. -/
structure SortKey where
  term : Term
  direction : Direction

/-- The ORDER BY clause. -/
structure Sorting where
  keys : List SortKey
  /-- The fields that the keys resolve to. -/
  fields : List (String × Direction) := []
  /-- The fields that have to be computed first. -/
  computed : List (String × Value) := []
  span : Span

namespace Sorting

/-- Whether nulls are asked to come first, and what stands before that, the last token first. -/
def splitNulls : List Token → Option Bool × List Token
  | last :: .keyword .NULLS :: rest => (some (last.isKeyword .FIRST), rest)
  | tokens => (none, tokens)

/-- The direction, and what stands before it, the last token first. -/
def splitWord : List Token → Direction × List Token
  | .keyword .DESC :: rest => (.descending, rest)
  | .keyword .ASC :: rest => (.ascending, rest)
  | tokens => (.ascending, tokens)

/-- The expression and the direction of a key. -/
def splitDirection (piece : List Token) : Compiled (List Token × Direction) :=
  let (nullsFirst, tokens) := splitNulls piece.reverse
  let (direction, tokens) := splitWord tokens
  if nullsFirst.any fun first => first != (direction == .ascending) then unsupported .nullsPlacement
  else .ok (tokens.reverse, direction)

/-- Reads a key. -/
def readKey (r : Reading) (piece : List Token) : Compiled SortKey := do
  let (tokens, direction) ← splitDirection piece
  let term ← { r with aliases := true }.resolveOne tokens
  return { term, direction }

/-- Reads ORDER BY and its keys, where ORDER BY is next. -/
def read? (r : Reading) (c : TokenCursor) : Compiled (Option Sorting × TokenCursor) :=
  match c.eat? .ORDER_BY with
  | none => .ok (none, c)
  | some afterOrder =>
    let (tokens, after) := afterOrder.takeUntil isClauseKeyword
    if tokens.isEmpty then undecodable .orderWithoutKeys
    else do
      let keys ← (Token.splitCommas tokens).mapM (readKey r)
      return (some { keys, span := .between c after }, after)

/-! ### Resolving keys -/

/-- The term that a key sorts by: that of the item that has its name or equals it, else its own. -/
def plainTerm (columns : Columns) (t : Term) : Compiled Term :=
  match t with
  | .field name => do
    let item ← columns.byName name
    return item.term
  | t =>
    match columns.byTerm? t with
    | some item => .ok item.term
    | none => .ok t

/-- The field that a key sorts by and, if it has to be computed, its value.  The name of a computed
field is private, because an alias may be the name of a stored field. -/
def plainKey (columns : Columns) (place : Nat) (key : SortKey) :
    Compiled (String × Option Value) := do
  match ← plainTerm columns key.term with
  | .column c => return (c.path, none)
  | t =>
    let value ← t.expression
    return (s!"_sort_{place}", some value)

/-- Adds the keys from a place on to the fields that are sorted by. -/
def addPlain (columns : Columns) (place : Nat) (sorting : Sorting) :
    List SortKey → Compiled Sorting
  | [] => .ok sorting
  | key :: keys => do
    let (field, value) ← plainKey columns place key
    addPlain columns (place + 1)
      { sorting with
        fields := sorting.fields ++ [(field, key.direction)]
        computed := sorting.computed ++ (value.toList.map fun value => (field, value)) }
      keys

/-- Resolves the keys against documents. -/
def resolvePlain (sorting : Sorting) (columns : Columns) : Compiled Sorting :=
  addPlain columns 0 { sorting with fields := [], computed := [] } sorting.keys

/-- The item that a key sorts by, among those of a DISTINCT. -/
def distinctItem (columns : Columns) (t : Term) : Compiled SelectItem :=
  let item := match t with
    | .field name => columns.byName? name
    | t => columns.byTerm? t
  match item with
  | some item => .ok item
  | none => undecodable (.orderOutsideDistinct t)

/-- Resolves the keys against the rows of a DISTINCT, which hold the items and nothing else. -/
def resolveDistinct (sorting : Sorting) (columns : Columns) : Compiled Sorting := do
  let fields ← sorting.keys.mapM fun key => do
    let item ← distinctItem columns key.term
    return (item.name, key.direction)
  return { sorting with fields }

/-- The outputs that keys sort by. -/
def exposeKeys (columns : Columns) : List SortKey → Planning (List (String × Direction))
  | [] => return []
  | key :: keys => do
    let name ← Grouping.expose columns key.term
    let fields ← exposeKeys columns keys
    return (name, key.direction) :: fields

/-- Resolves the keys against the outputs of a grouping. -/
def resolveGrouped (sorting : Sorting) (columns : Columns) (g : Grouping) :
    Compiled (Sorting × Grouping) := do
  let (fields, g) ← (exposeKeys columns sorting.keys).run g
  return ({ sorting with fields }, g)

/-- Whether a field has to be computed. -/
def needsPipeline (sorting : Sorting) : Bool := !sorting.computed.isEmpty

/-- The document that tells the store how to sort. -/
def document (sorting : Sorting) : Fields :=
  Entries.insertAll [] (sorting.fields.map fun (field, direction) => (field, direction.value))

end Sorting

instance : Clause Sorting where
  span := Sorting.span
  stages sorting :=
    let computed :=
      if sorting.needsPipeline then [Value.field "$addFields" (.object sorting.computed)] else []
    .ok (computed ++ [.field "$sort" (.object sorting.document)])
  find sorting args :=
    if sorting.needsPipeline then undecodable .orderNeedsPipeline
    else .ok { args with sort := sorting.fields }

end DocSql
