import DocSql.Document.Value

/-! # Dotted paths

A path `a.b.c` names a field of a field of a field.  Its segments are what stands between the dots;
they may be empty.  `insertPath` writes below a path and makes the documents on the way, `walk`
reads along the segments, and `lookup` reads a field whose own name is the whole path before it
looks along the segments.
-/
namespace DocSql

/-- The pieces of a text between the dots. -/
def splitDots : List Char → List (List Char)
  | [] => [[]]
  | c :: cs =>
    if c = '.' then [] :: splitDots cs
    else match splitDots cs with
      | [] => [[c]]
      | piece :: rest => (c :: piece) :: rest

theorem splitDots_ne_nil (cs : List Char) : splitDots cs ≠ [] := by
  cases cs with
  | nil => simp [splitDots]
  | cons c cs =>
      rw [splitDots]
      split
      · simp
      · split <;> simp

/-- The segments of a path. -/
def segments (path : String) : List String :=
  (splitDots path.toList).map String.ofList

/-- The text with every dot replaced. -/
def replaceDots (by_ : String) (text : String) : String :=
  by_.intercalate (segments text)

namespace Value

/-- The value reached from a value along segments. -/
def walk : List String → Value → Option Value
  | [], value => some value
  | name :: rest, value => (value.get? name).bind (walk rest)

/-- Reads a path of a document.  A field whose name is the whole path comes first. -/
def lookup (document : Value) (path : String) : Option Value :=
  match document.get? path with
  | some value => some value
  | none => walk (segments path) document

end Value

namespace Fields

/-- Writes a value along segments.  Whatever stands on the way and is no document gives place to
one. -/
def insertAlong (fields : Fields) : List String → Value → Fields
  | [], _ => fields
  | [name], value => fields.insert name value
  | name :: rest, value =>
    let child := match fields.get? name with
      | some (.object child) => child
      | _ => []
    fields.insert name (.object (insertAlong child rest value))

/-- Writes a value below a path. -/
def insertPath (fields : Fields) (path : String) (value : Value) : Fields :=
  insertAlong fields (segments path) value

end Fields

end DocSql
