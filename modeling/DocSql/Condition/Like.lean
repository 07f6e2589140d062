import DocSql.Fault

/-! # LIKE patterns

In a pattern `%` stands for any text, `_` for any character, and a backslash takes away the meaning
of the character after it.  The document store matches regular expressions, so a pattern becomes an
anchored regular expression with one element for each element of the pattern.
-/
namespace DocSql

/-- An element of a LIKE pattern. -/
inductive LikeItem where
  | anyText
  | anyChar
  | char (c : Char)
  deriving DecidableEq

/-- The elements of a pattern.  A backslash at the end stands for nothing. -/
def likeItems : List Char → List LikeItem
  | [] => []
  | c :: cs =>
    if c = '%' then .anyText :: likeItems cs
    else if c = '_' then .anyChar :: likeItems cs
    else if c = '\\' then
      match cs with
      | [] => []
      | e :: rest => .char e :: likeItems rest
    else .char c :: likeItems cs

/-- The characters that mean something in a regular expression. -/
def isRegexSign (c : Char) : Bool :=
  "\\.+*?()|[]\x7b\x7d^$#&-~".toList.contains c

/-- An element as a regular expression. -/
def LikeItem.regex : LikeItem → List Char
  | .anyText => ['.', '*']
  | .anyChar => ['.']
  | .char c => if isRegexSign c then ['\\', c] else [c]

/-- The regular expression of a pattern. -/
def likeRegex (pattern : String) : String :=
  String.ofList ('^' :: ((likeItems pattern.toList).flatMap LikeItem.regex ++ ['$']))

/-- The regular expression of the pattern that a term holds. -/
def Term.likeRegex (t : Term) : Compiled String :=
  match t.constant? with
  | some (.string pattern) => .ok (DocSql.likeRegex pattern)
  | _ => unsupported .likePattern

end DocSql
