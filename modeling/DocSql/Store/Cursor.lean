import DocSql.Document.Value
import DocSql.Store.Fault

/-! # Result cursors

A cursor hands out the documents of a result one after the other until it is closed.  It keeps a
record of what it was asked.
-/
namespace DocSql

/-- What a cursor can be asked. -/
inductive CursorEvent where
  | advanced
  | closed
  deriving DecidableEq

/-- A cursor over the documents of a result. -/
structure ResultCursor where
  /-- What is not handed out yet: documents, or a failure of the store. -/
  pending : List (Except StoreFault Value)
  /-- What the cursor was asked, the latest first. -/
  trace : List CursorEvent := []

namespace ResultCursor

/-- The cursor over some documents. -/
def ofDocuments (documents : List Value) : ResultCursor := { pending := documents.map .ok }

/-- Whether the cursor is closed. -/
def isClosed (c : ResultCursor) : Bool := c.trace.contains .closed

/-- Asks for the next document.  There is none after the last one or after closing. -/
def next (c : ResultCursor) : Option (Except StoreFault Value) × ResultCursor :=
  let asked := { c with trace := .advanced :: c.trace }
  if c.isClosed then (none, asked)
  else match c.pending with
    | [] => (none, asked)
    | item :: rest => (some item, { asked with pending := rest })

/-- Closes the cursor. -/
def close (c : ResultCursor) : ResultCursor := { pending := [], trace := .closed :: c.trace }

end ResultCursor

end DocSql
