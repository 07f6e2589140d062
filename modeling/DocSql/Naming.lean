import DocSql.Document.Path

/-! # Names for fields

A name that is taken gets a number behind it, the least that makes it free.  Fields beside a group
cannot have dots in their names.
-/
namespace DocSql

/-- The names to try: the base itself, then the base with a number. -/
def nameCandidate (base : String) : Nat → String
  | 0 => base
  | k + 1 => base ++ "_" ++ toString (k + 1)

/-- The first name to try that is not taken.  One of the candidates is free, because there is one
more of them than there are taken names. -/
def freshName (taken : List String) (base : String) : String :=
  let candidates := (List.range (taken.length + 1)).map (nameCandidate base)
  (candidates.find? fun name => !taken.contains name).getD base

/-- A name without dots. -/
def dotless (name : String) : String := replaceDots "__" name

end DocSql
