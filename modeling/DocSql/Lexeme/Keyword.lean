import DocSql.Text.Blank
import DocSql.Text.Uppercase

/-! # Keywords

The words that an unquoted text reserves.  Most are single words; ten are compound, such as
`LEFT OUTER JOIN`, and take any blanks between their words.  `matchWord` says how many characters of
a text a word takes, and `compound?` looks for a compound keyword at the start of a text.
-/
namespace DocSql

/-- A reserved word, or a compound of reserved words. -/
inductive Keyword where
  | SELECT | DISTINCT | FROM | WHERE | AND | OR | NOT | IN | IS | LIKE | ILIKE | BETWEEN | AS
  | ON | JOIN | INNER | LEFT | RIGHT | OUTER | FULL | CROSS | HAVING | LIMIT | OFFSET | ASC
  | DESC | CASE | WHEN | THEN | ELSE | END | INSERT | INTO | VALUES | UPDATE | SET | DELETE
  | DEFAULT | CREATE | ALTER | DROP | TABLE | ADD | CONSTRAINT | CHECK | UNIQUE | PRIMARY
  | FOREIGN | KEY | REFERENCES | COLUMN | INDEX | EXISTS | NULLS | FIRST | LAST | RETURNING
  | LEFT_OUTER_JOIN | RIGHT_OUTER_JOIN | FULL_OUTER_JOIN | INNER_JOIN | LEFT_JOIN | RIGHT_JOIN
  | FULL_JOIN | CROSS_JOIN | GROUP_BY | ORDER_BY
  deriving DecidableEq

namespace Keyword

/-- The keyword as it is written. -/
def text : Keyword → String
  | .SELECT => "SELECT"
  | .DISTINCT => "DISTINCT"
  | .FROM => "FROM"
  | .WHERE => "WHERE"
  | .AND => "AND"
  | .OR => "OR"
  | .NOT => "NOT"
  | .IN => "IN"
  | .IS => "IS"
  | .LIKE => "LIKE"
  | .ILIKE => "ILIKE"
  | .BETWEEN => "BETWEEN"
  | .AS => "AS"
  | .ON => "ON"
  | .JOIN => "JOIN"
  | .INNER => "INNER"
  | .LEFT => "LEFT"
  | .RIGHT => "RIGHT"
  | .OUTER => "OUTER"
  | .FULL => "FULL"
  | .CROSS => "CROSS"
  | .HAVING => "HAVING"
  | .LIMIT => "LIMIT"
  | .OFFSET => "OFFSET"
  | .ASC => "ASC"
  | .DESC => "DESC"
  | .CASE => "CASE"
  | .WHEN => "WHEN"
  | .THEN => "THEN"
  | .ELSE => "ELSE"
  | .END => "END"
  | .INSERT => "INSERT"
  | .INTO => "INTO"
  | .VALUES => "VALUES"
  | .UPDATE => "UPDATE"
  | .SET => "SET"
  | .DELETE => "DELETE"
  | .DEFAULT => "DEFAULT"
  | .CREATE => "CREATE"
  | .ALTER => "ALTER"
  | .DROP => "DROP"
  | .TABLE => "TABLE"
  | .ADD => "ADD"
  | .CONSTRAINT => "CONSTRAINT"
  | .CHECK => "CHECK"
  | .UNIQUE => "UNIQUE"
  | .PRIMARY => "PRIMARY"
  | .FOREIGN => "FOREIGN"
  | .KEY => "KEY"
  | .REFERENCES => "REFERENCES"
  | .COLUMN => "COLUMN"
  | .INDEX => "INDEX"
  | .EXISTS => "EXISTS"
  | .NULLS => "NULLS"
  | .FIRST => "FIRST"
  | .LAST => "LAST"
  | .RETURNING => "RETURNING"
  | .LEFT_OUTER_JOIN => "LEFT OUTER JOIN"
  | .RIGHT_OUTER_JOIN => "RIGHT OUTER JOIN"
  | .FULL_OUTER_JOIN => "FULL OUTER JOIN"
  | .INNER_JOIN => "INNER JOIN"
  | .LEFT_JOIN => "LEFT JOIN"
  | .RIGHT_JOIN => "RIGHT JOIN"
  | .FULL_JOIN => "FULL JOIN"
  | .CROSS_JOIN => "CROSS JOIN"
  | .GROUP_BY => "GROUP BY"
  | .ORDER_BY => "ORDER BY"

/-- The keywords of a single word. -/
def words : List Keyword :=
  [.SELECT, .DISTINCT, .FROM, .WHERE, .AND, .OR, .NOT, .IN, .IS, .LIKE, .ILIKE, .BETWEEN, .AS,
   .ON, .JOIN, .INNER, .LEFT, .RIGHT, .OUTER, .FULL, .CROSS, .HAVING, .LIMIT, .OFFSET, .ASC,
   .DESC, .CASE, .WHEN, .THEN, .ELSE, .END, .INSERT, .INTO, .VALUES, .UPDATE, .SET, .DELETE,
   .DEFAULT, .CREATE, .ALTER, .DROP, .TABLE, .ADD, .CONSTRAINT, .CHECK, .UNIQUE, .PRIMARY,
   .FOREIGN, .KEY, .REFERENCES, .COLUMN, .INDEX, .EXISTS, .NULLS, .FIRST, .LAST, .RETURNING]

/-- The compound keywords, longer ones before those they start with. -/
def compounds : List Keyword :=
  [.LEFT_OUTER_JOIN, .RIGHT_OUTER_JOIN, .FULL_OUTER_JOIN, .INNER_JOIN, .LEFT_JOIN, .RIGHT_JOIN,
   .FULL_JOIN, .CROSS_JOIN, .GROUP_BY, .ORDER_BY]

/-- The keyword of a single word with the given text. -/
def ofWord? (word : String) : Option Keyword :=
  words.find? fun k => k.text == word

/-- The keyword with the given text. -/
def ofText? (text : String) : Option Keyword :=
  (words ++ compounds).find? fun k => k.text == text

end Keyword

/-! ### Matching words in a text -/

/-- Whether a word may end before `c`. -/
def isDelimiter (c : Char) : Bool :=
  c = ',' || c = '(' || c = ')' || c = ';' || Text.isBlank c

/-- How many characters of `text` the capitals of a word take.  A space takes a run of blanks, at
least one, and any other character takes itself up to the case of ASCII letters. -/
def matchCapitals : List Char → List Char → Option Nat
  | [], text => match text with
    | [] => some 0
    | c :: _ => if isDelimiter c then some 0 else none
  | w :: ws, text =>
    if w = ' ' then
      match text with
      | [] => none
      | c :: cs =>
        if Text.isBlank c then
          let run := cs.takeWhile Text.isBlank
          (matchCapitals ws (cs.drop run.length)).map (· + (run.length + 1))
        else none
    else match text with
      | [] => none
      | c :: cs => if c.toUpper = w then (matchCapitals ws cs).map (· + 1) else none

/-- How many characters at the start of `text` are the given word and end it. -/
def matchWord (word : List Char) (text : List Char) : Option Nat :=
  matchCapitals (Text.uppercase word) text

/-- The compound keyword at the start of a text, with the number of its characters. -/
def compound? (text : List Char) : Option (Keyword × Nat) :=
  Keyword.compounds.findSome? fun k => (matchWord k.text.toList text).map fun n => (k, n)

end DocSql
