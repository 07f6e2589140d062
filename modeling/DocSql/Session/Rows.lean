import DocSql.Select.Basic
import DocSql.Store.Cursor

/-! # Rows

The documents of a result become rows one at a time.  The cursor is closed when there is no further
row, after a failure, and when the reader says so; after that there is no row any more.
-/
namespace DocSql

/-- A row of a result. -/
abbrev Row := List Value

/-- The rows of a result. -/
structure Rows where
  cursor : ResultCursor
  shape : RowShape
  /-- Whether a missing column is a fault rather than null. -/
  enforceSchema : Bool
  /-- How often the same row is still due. -/
  remaining : Option Nat := none
  /-- Whether there was a row already. -/
  produced : Bool := false
  sql : String
  params : List Value

/-- Something done while reading rows. -/
abbrev RowsM := ExceptT Fault (StateM Rows)

namespace Rows

/-- Whether the cursor is closed. -/
def isClosed (r : Rows) : Bool := r.cursor.isClosed

/-- Closes the cursor, if it is open. -/
def close (r : Rows) : Rows := if r.isClosed then r else { r with cursor := r.cursor.close }

/-- The next document. -/
def fetch : RowsM (Option Value) := do
  let r ← get
  if r.isClosed then return none
  else
    let (item, cursor) := r.cursor.next
    set { r with cursor }
    match item with
    | none => return none
    | some (.ok document) => return some document
    | some (.error why) => throw (.store why)

/-- The number in a document that counts others.  No document means that there are none. -/
def countOf (document : Option Value) : Nat :=
  ((document.bind fun d => d.get? "_count").bind Value.asNat64?).getD 0

/-- The row of a document. -/
def align (enforceSchema : Bool) (document : Value) : List String → Compiled Row
  | [] => .ok []
  | column :: columns =>
    match document.lookup column with
    | some value => do
      let row ← align enforceSchema document columns
      return value :: row
    | none =>
      if enforceSchema then .error (.migration (.column column))
      else do
        let row ← align enforceSchema document columns
        return .null :: row

/-- How often the same row is due. -/
def dueRows : RowsM Nat := do
  match (← get).remaining with
  | some n => return n
  | none => return countOf (← fetch)

/-- The next row. -/
def nextRow : RowsM (Option Row) := do
  let r ← get
  match r.shape with
  | .count =>
    if r.produced then return none
    else return some [.int (countOf (← fetch))]
  | .constant values =>
    match ← dueRows with
    | 0 =>
      modify fun r => { r with remaining := some 0 }
      return none
    | n + 1 =>
      modify fun r => { r with remaining := some n }
      return some values
  | .documents columns emptyRow =>
    match ← fetch with
    | none => return if r.produced then none else emptyRow
    | some document =>
      let row ← align r.enforceSchema document columns
      return some row

/-- Reads the next row. -/
def next (r : Rows) : Option (Compiled Row) × Rows :=
  if r.isClosed then (none, r)
  else match nextRow.run.run r with
    | (.ok (some row), r) => (some (.ok row), { r with produced := true })
    | (.ok none, r) => (none, r.close)
    | (.error fault, r) => (some (.error fault), r.close)

end Rows

end DocSql
