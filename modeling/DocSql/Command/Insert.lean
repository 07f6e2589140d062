import DocSql.Clause.Basic
import DocSql.Store.Basic
import DocSql.Term.Resolve

/-! # INSERT

A row gives a value, or DEFAULT, for each column.  A collection may have a sequence: the fields that
it fills get the next number in each row that does not give them.
-/
namespace DocSql

/-- A value of a row. -/
inductive InsertValue where
  | value (v : Value)
  | default

/-- A compiled INSERT. -/
structure Insert where
  collection : String
  columns : List String
  rows : List (List InsertValue)

namespace Insert

/-! ### Reading -/

/-- The column that tokens name. -/
def readColumn : List Token → Compiled String
  | [.name _ column] => .ok column
  | _ => undecodable .expectedColumnName

/-- The table, its columns, and the tokens behind them. -/
def readTarget : List Token → Compiled (String × List String × List Token)
  | .call collection args :: rest => do
    let columns ← args.mapM readColumn
    return (collection, columns, rest)
  | .name none collection :: .paren inner :: rest => do
    let columns ← (Token.splitCommas inner).mapM readColumn
    return (collection, columns, rest)
  | .name _ _ :: _ => unsupported .insertWithoutColumns
  | _ => undecodable .insertWithoutTable

/-- The value that tokens stand for. -/
def readValue (r : Reading) : List Token → Compiled InsertValue
  | [.keyword .DEFAULT] => .ok .default
  | [t] => do
    let term ← r.resolve t
    match term.constant? with
    | some v => return .value v
    | none => unsupported (.computedInsertValue t)
  | _ => undecodable .malformedRow

/-- The values of a row, one for each column. -/
def readRow (r : Reading) (width : Nat) (tokens : List Token) : Compiled (List InsertValue) := do
  let row ← (Token.splitCommas tokens).mapM (readValue r)
  if row.length = width then return row else undecodable (.rowWidth row.length width)

/-- Whether a row follows the token: it is VALUES, or a comma behind another row. -/
def announcesRow (afterRow : Bool) (t : Token) : Bool :=
  t.isKeyword .VALUES || (afterRow && t.isPunctuation ',')

/-- The rows that are next, and the tokens behind them. -/
def readRows (r : Reading) (width : Nat) (afterRow : Bool) :
    List Token → Compiled (List (List InsertValue) × List Token)
  | t :: .paren values :: rest =>
    if announcesRow afterRow t then do
      let row ← readRow r width values
      let (rows, rest) ← readRows r width true rest
      return (row :: rows, rest)
    else .ok ([], t :: .paren values :: rest)
  | t :: rest =>
    if announcesRow afterRow t then undecodable .valuesWithoutRow else .ok ([], t :: rest)
  | [] => .ok ([], [])

/-- Refuses what stands behind the rows.  RETURNING is accepted, because the store gives the ids in
any case. -/
def checkEnd : List Token → Compiled Unit
  | [] => .ok ()
  | t :: _ => if t.isKeyword .RETURNING then .ok () else undecodable (.unexpectedInInsert t)

/-- Compiles an INSERT. -/
def compile (r : Reading) : List Token → Compiled Insert
  | .keyword .INSERT :: .keyword .INTO :: rest => do
    let (collection, columns, rest) ← readTarget rest
    let (rows, rest) ← readRows r columns.length false rest
    if rows.isEmpty then unsupported .insertWithoutValues
    else
      checkEnd rest
      return { collection, columns, rows }
  | _ => undecodable .expectedInsert

/-! ### Running -/

/-- The collection that holds the sequences. -/
def schemaCollection : String := "__schema__"

/-- The sequence of a collection as far as an insertion needs it. -/
structure Numbers where
  /-- The fields that the sequence fills. -/
  fields : List String
  /-- The number of the first row. -/
  first : Int

/-- The field of a document, or null. -/
def fieldOf (v : Value) (name : String) : Value := (v.get? name).getD .null

/-- The numbers for some rows, from the entry of the sequence after the rows were added to it. -/
def numbersOf (collection : String) (rows : Nat) : Option Value → Compiled Numbers
  | none => .ok { fields := [], first := 0 }
  | some entry =>
    let auto := fieldOf entry "auto"
    let fields := (((fieldOf auto "field_names").asArray?).getD []).filterMap Value.asString?
    match (fieldOf auto "seq").asInt64? with
    | some seq => .ok { fields, first := seq - rows + 1 }
    | none => undecodable (.missingSequence collection)

/-- A document under construction, and whether the sequence has filled a field of it. -/
structure Draft where
  document : Fields := []
  numbered : Bool := false

/-- Writes a number of the sequence into a field. -/
def Draft.number (d : Draft) (field : String) (n : Int) : Draft :=
  { document := d.document.insert field (.int n), numbered := true }

/-- Writes the value of a column. -/
def writeColumn (fields : List String) (n : Int) (d : Draft) : String × InsertValue → Draft
  | (column, .value v) => { d with document := d.document.insert column v }
  | (column, .default) => if fields.contains column then d.number column n else d

/-- The document of a row. -/
def draftRow (columns fields : List String) (n : Int) (row : List InsertValue) : Draft :=
  let given := (columns.zip row).foldl (writeColumn fields n) {}
  (fields.filter fun field => !columns.contains field).foldl (fun d field => d.number field n) given

/-- The documents of the rows from a number on, and the last number that was used. -/
def draftRows (columns fields : List String) : Int → List (List InsertValue) →
    List Fields × Option Int
  | _, [] => ([], none)
  | n, row :: rows =>
    let draft := draftRow columns fields n row
    let (documents, last) := draftRows columns fields (n + 1) rows
    (draft.document :: documents, last.or (if draft.numbered then some n else none))

/-- What an insertion gives: how many documents, and the last number or else the last id. -/
structure Outcome where
  count : Nat
  lastRowId : Option Value

/-- Takes numbers from the sequence, then inserts the documents. -/
def execute (i : Insert) : StoreM Outcome := do
  let entry ← Store.findOneAndIncrement schemaCollection
    (.object [("name", .string i.collection), ("auto", .field "$exists" (.bool true))])
    (.field "$inc" (.field "auto.seq" (.int i.rows.length)))
  let numbers ← numbersOf i.collection i.rows.length entry
  let (documents, last) := draftRows i.columns numbers.fields numbers.first i.rows
  let ids ← Store.insertMany i.collection documents false
  return { count := ids.length, lastRowId := (last.map Value.int).or ids.getLast? }

end Insert

end DocSql
