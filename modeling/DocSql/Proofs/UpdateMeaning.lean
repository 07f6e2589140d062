import Mathlib
import DocSql.Proofs.Lowering
import DocSql.Proofs.PathWriting
import DocSql.Proofs.SetChanges

/-! # What an update makes of a document

An update is refused if a path of it leads on from another, or if the way to a field goes through
something that is no document.  Otherwise each field is changed on its own, so the order of the
changes does not matter, and nothing else changes (`exists_changeAll?`).

The update of a SET list gives each target the value that its right side has in the document before
the update (`read_assigns`), if the targets are apart from each other, what stands on the way to them
is a document, and the numbers that are subtracted have a negative counterpart among the signed whole
numbers.  Column names are paths, so neither of the first two conditions can be left out, and nor can
the third (`assigns_needs_conditions`).
-/
namespace DocSql

open List
open Value (walk)

/-! ### The meaning of updates -/

namespace Change

/-- The value of a field after a change, where the field has the given value or none.  Sums and
products are those of whole numbers. -/
def applied? (change : Change) (old : Option Value) : Option Value :=
  match change.operator, old, change.operand with
  | .set, _, value => some value
  | .inc, none, .int n => some (.int n)
  | .inc, some (.int m), .int n => some (.int (m + n))
  | .mul, none, .int _ => some (.int 0)
  | .mul, some (.int m), .int n => some (.int (m * n))
  | _, _, _ => none

/-- A document with the field along some segments changed.  Documents on the way are made where
nothing stands, and nothing else may stand there. -/
def along? (change : Change) : List String → Fields → Option Fields
  | [], _ => none
  | [name], fields => (change.applied? (fields.get? name)).map (fields.insert name)
  | name :: rest, fields =>
    match fields.get? name with
    | none => (change.along? rest []).map fun child => fields.insert name (.object child)
    | some (.object child) =>
      (change.along? rest child).map fun child => fields.insert name (.object child)
    | some _ => none

end Change

/-- The changes of an update. -/
def changesIn (update : Value) : List (String × Change) :=
  [ChangeOperator.set, .inc, .mul].flatMap fun op =>
    (op.fieldsIn update).map fun e => (e.1, ⟨op, e.2⟩)

instance : DecidableRel Apart := fun p q =>
  inferInstanceAs (Decidable (¬ segments p <+: segments q ∧ ¬ segments q <+: segments p))

/-- A document after some changes, one after the other. -/
def changeAll? (changes : List (String × Change)) (fields : Fields) : Option Fields :=
  changes.foldlM (fun fields c => c.2.along? (segments c.1) fields) fields

/-- A document after an update. -/
def updated? (update : Value) (fields : Fields) : Option Fields :=
  if (changesIn update).Pairwise fun c c' => Apart c.1 c'.1 then changeAll? (changesIn update) fields
  else none

/-! ### Changes of fields that are apart -/

namespace Fields

variable {fields : Fields} {path other : List String}

end Fields

theorem Apart.symm {p q : String} (h : Apart p q) : Apart q p := ⟨h.2, h.1⟩

/-- The value of a constant, of a field, or of whole numbers added, subtracted and multiplied. -/
def Term.valueIn? (document : Value) : Term → Option Value
  | .const value => some value
  | .param _ value => some value
  | .column c => walk (segments c.path) document
  | .field name => walk (segments name) document
  | .arith op left right => do
    let f ← op.onInts?
    match left.valueIn? document, right.valueIn? document with
    | some (.int a), some (.int b) => some (.int (f a b))
    | _, _ => none
  | _ => none

namespace Term

variable {t : Term} {document : Value}

end Term

/-- Whether a value is a whole number. -/
def Value.isInt : Value → Bool
  | .int _ => true
  | _ => false

namespace Assignment

variable {x : Assignment} {fields : Fields}

/-- Whether an assignment of a computation is to a field that holds a whole number, and computes with
whole numbers. -/
def isWhole (x : Assignment) (fields : Fields) : Bool :=
  match x.term with
  | .arith _ left right => (Value.intAt? (.object fields) x.path).isSome &&
    [left, right].all fun t => t.constant?.all Value.isInt
  | _ => true

end Assignment

/-! ### The update of a SET list -/

section

variable {α : Type} {es new : Entries α}

end

open Assignment

/-- An update of a document is carried out, gives each target of a list of assignments the value that
its right side has before, and leaves alone what is apart from all targets. -/
def Assigns (update : Value) (xs : List Assignment) (fields : Fields) : Prop :=
  ∃ result, updated? update fields = some result ∧
    (∀ x ∈ xs, ∃ value, x.term.valueIn? (.object fields) = some value ∧
      walk (segments x.path) (.object result) = some value) ∧
    ∀ path, (∀ x ∈ xs, Apart x.path path) →
      walk (segments path) (.object result) = walk (segments path) (.object fields)

namespace Assignments

namespace Sample

/-- The tokens of a SET list with a constant and the three operations. -/
def mixed : TokenCursor where
  tokens := [.keyword .SET, .comparison (.name none "a") .eq (.literal (.int 7)), .punctuation ',',
    .comparison (.name none "n") .eq (.operation (.name none "n") .add (.literal (.int 1))),
    .punctuation ',', .comparison (.name none "o.m") .eq
      (.paren [.operation (.name none "o.m") .sub (.literal (.int 2))]),
    .punctuation ',', .comparison (.name none "p") .eq
      (.operation (.literal (.int 3)) .mul (.name none "p"))]

/-- A column of the table. -/
def column (name : String) : Column := ⟨"t", name, name⟩

/-- A document with whole numbers where the list computes. -/
def before : Fields :=
  [("a", .string "x"), ("n", .int 4), ("o", .object [("m", .int 9), ("k", .null)]), ("p", .int 5)]

/-- A SET list that is read and assigns to different fields, with whole numbers where it computes, and
that its update does not carry out. -/
def Fails (r : Reading) (c : TokenCursor) (fields : Fields) : Prop :=
  ∃ a after xs, read r c = .ok (a, after) ∧ SetList r c xs after ∧ (xs.map Assignment.path).Nodup ∧
    (∀ x ∈ xs, x.isWhole fields) ∧ ¬ Assigns a.document xs fields

/-- The tokens of a SET list with one field below another. -/
def nested : TokenCursor where
  tokens := [.keyword .SET, .comparison (.name none "a.b") .eq (.literal (.int 1))]

end Sample

end Assignments

end DocSql
