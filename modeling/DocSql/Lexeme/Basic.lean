import DocSql.Lexeme.Keyword
import DocSql.ParseError
import DocSql.Text.Letter
import DocSql.Number.Numeral

/-! # Lexemes

A query text is divided into lexemes: words, quoted names, literals, placeholders and marks.  `scan`
reads one lexeme at the start of a text and says how many characters it takes; a lexeme takes at
least one, which is why `lexFrom` comes to an end.  Placeholders without a number are counted on
from the largest one so far.
-/
namespace DocSql

/-- What a lexeme is. -/
inductive LexemeKind where
  | keyword (k : Keyword)
  /-- An unquoted word that is no keyword. -/
  | name (text : String)
  | quoted (text : String)
  | string (text : String)
  /-- A number as it is written. -/
  | number (text : String)
  | null
  | bool (b : Bool)
  /-- A hole that the parameter of that index fills. -/
  | placeholder (index : Nat)
  | operator (text : String)
  | star
  | dot
  | comma
  | semicolon
  | lparen
  | rparen
  deriving DecidableEq

/-- A lexeme in its place. -/
structure Lexeme where
  kind : LexemeKind
  /-- Whether blanks stand right before it. -/
  spaced : Bool
  /-- The number of characters before it. -/
  start : Nat
  deriving DecidableEq

/-- A lexeme read at the start of a text. -/
structure Scan where
  kind : LexemeKind
  /-- The number of characters it takes besides its first. -/
  more : Nat
  /-- The index of the next placeholder without a number. -/
  holes : Nat

/-- A text that starts no lexeme: the reason, and the number of characters passed before it
showed. -/
structure Misscan where
  reason : Misreading
  passed : Nat := 0

namespace Scan

/-! ### Pieces of lexemes -/

/-- Whether an operand may come after the lexeme, so that a minus sign belongs to a number. -/
def opensOperand : Option LexemeKind → Bool
  | none => true
  | some (.operator _) | some (.keyword _) | some .comma | some .lparen => true
  | some _ => false

/-- Whether a text starts with an ASCII digit. -/
def startsDigit : List Char → Bool
  | c :: _ => c.isDigit
  | [] => false

/-- The characters of a number at the start of a text: digits and points, and one exponent mark with
its sign. -/
def numberRun (exponent : Bool) : List Char → List Char
  | [] => []
  | c :: cs =>
    if c.isDigit || c = '.' then c :: numberRun exponent cs
    else if (c = 'e' || c = 'E') && !exponent then
      match cs with
      | [] => [c]
      | s :: rest =>
        if s = '+' || s = '-' then c :: s :: numberRun true rest
        else c :: numberRun true (s :: rest)
    else []

/-- The text up to the closing quote, where two quotes stand for one, with the number of characters
up to and with the closing one. -/
def stringRun : List Char → Option (List Char × Nat)
  | [] => none
  | c :: cs =>
    if c = '\x27' then
      match cs with
      | [] => some ([], 1)
      | d :: rest =>
        if d = '\x27' then (stringRun rest).map fun (text, n) => ('\x27' :: text, n + 2)
        else some ([], 1)
    else (stringRun cs).map fun (text, n) => (c :: text, n + 1)

/-- Whether a character may continue a word. -/
def isWordChar (c : Char) : Bool :=
  Text.isLetterOrNumber c || c = '_' || c = '$'

/-- The lexeme of an unquoted word. -/
def ofWord (word : String) : LexemeKind :=
  let capitals := word.toUpper
  if capitals = "NULL" then .null
  else if capitals = "TRUE" then .bool true
  else if capitals = "FALSE" then .bool false
  else match Keyword.ofWord? capitals with
    | some k => .keyword k
    | none => .name word

/-! ### The kinds of lexemes -/

/-- A quoted name, after its opening quote. -/
def quoted (holes : Nat) (quote : Char) (cs : List Char) : Except Misscan Scan :=
  let text := cs.takeWhile (· ≠ quote)
  if text.length < cs.length then .ok ⟨.quoted (String.ofList text), text.length + 1, holes⟩
  else .error ⟨.unterminatedQuoted, text.length + 1⟩

/-- A string, after its opening quote. -/
def string (holes : Nat) (cs : List Char) : Except Misscan Scan :=
  match stringRun cs with
  | some (text, n) => .ok ⟨.string (String.ofList text), n, holes⟩
  | none => .error ⟨.unterminatedString, cs.length + 1⟩

/-- The digits of `(digits)s`, in any script. -/
def numberedHole? : List Char → Option (List Char)
  | '(' :: cs =>
    let digits := cs.takeWhile Text.isDecimal
    match digits, cs.drop digits.length with
    | _ :: _, ')' :: 's' :: _ => some digits
    | _, _ => none
  | _ => none

/-- What a percent sign starts: the next placeholder, the placeholder with a number, or the
operator. -/
def percent (holes : Nat) (cs : List Char) : Except Misscan Scan :=
  if cs.head? = some 's' then .ok ⟨.placeholder holes, 1, holes + 1⟩
  else match numberedHole? cs with
    | some digits =>
      let index := digitsValue digits
      if digits.all Char.isDigit && index < unsignedBound then
        .ok ⟨.placeholder index, digits.length + 3, max holes (index + 1)⟩
      else .error ⟨.invalidPlaceholder, 0⟩
    | none => .ok ⟨.operator "%", 0, holes⟩

/-- An operator of one or two characters. -/
def operator (holes : Nat) (c : Char) (cs : List Char) : Except Misscan Scan :=
  let two := String.ofList (c :: cs.take 1)
  if two = "<=" ∨ two = ">=" ∨ two = "<>" ∨ two = "!=" ∨ two = "||" then
    .ok ⟨.operator two, 1, holes⟩
  else if c = '!' ∨ c = '|' then .error ⟨.invalidOperator, 0⟩
  else .ok ⟨.operator (String.singleton c), 0, holes⟩

/-- The lexeme that starts with `c` and goes on into `cs`, where no compound keyword stands. -/
def simple (previous : Option LexemeKind) (holes : Nat) (c : Char) (cs : List Char) :
    Except Misscan Scan :=
  if c = '\x22' ∨ c = '\x60' then quoted holes c cs
  else if c = '\x27' then string holes cs
  else if c = '(' then .ok ⟨.lparen, 0, holes⟩
  else if c = ')' then .ok ⟨.rparen, 0, holes⟩
  else if c = ',' then .ok ⟨.comma, 0, holes⟩
  else if c = ';' then .ok ⟨.semicolon, 0, holes⟩
  else if c = '.' ∧ startsDigit cs = false then .ok ⟨.dot, 0, holes⟩
  else if c = '*' then .ok ⟨.star, 0, holes⟩
  else if c = '?' then .ok ⟨.placeholder holes, 0, holes + 1⟩
  else if c = '%' then percent holes cs
  else if c = '-' ∧ opensOperand previous ∧ startsDigit cs then
    let digits := numberRun false cs
    .ok ⟨.number (String.ofList ('-' :: digits)), digits.length, holes⟩
  else if c = '<' ∨ c = '>' ∨ c = '!' ∨ c = '=' ∨ c = '+' ∨ c = '-' ∨ c = '/' ∨ c = '|' then
    operator holes c cs
  else if c.isDigit ∨ c = '.' then
    let digits := numberRun false (c :: cs)
    .ok ⟨.number (String.ofList digits), digits.length - 1, holes⟩
  else if Text.isLetter c ∨ c = '_' then
    let tail := cs.takeWhile isWordChar
    .ok ⟨ofWord (String.ofList (c :: tail)), tail.length, holes⟩
  else .error ⟨.unexpectedCharacter, 0⟩

end Scan

/-- The lexeme at the start of `c :: cs`; `previous` is the lexeme before it and `holes` the index of
the next placeholder. -/
def scan (previous : Option LexemeKind) (holes : Nat) (c : Char) (cs : List Char) :
    Except Misscan Scan :=
  match compound? (c :: cs) with
  | some (k, n) => .ok ⟨.keyword k, n - 1, holes⟩
  | none => Scan.simple previous holes c cs

/-- The lexemes of a text that starts at the character `position`, and the number of placeholders
after them. -/
def lexFrom (position holes : Nat) (previous : Option LexemeKind) (text : List Char) :
    Except ParseError (List Lexeme × Nat) :=
  let blanks := (text.takeWhile Text.isBlank).length
  match _h : text.drop blanks with
  | [] => .ok ([], holes)
  | c :: cs =>
    let start := position + blanks
    match scan previous holes c cs with
    | .error e =>
      .error
        { reason := e.reason
          text := String.ofList ((c :: cs).take (e.passed + 1))
          start := start
          stop := start + e.passed }
    | .ok s => do
      let (rest, holes) ←
        lexFrom (start + (s.more + 1)) s.holes (some s.kind) (cs.drop s.more)
      return (⟨s.kind, 0 < blanks, start⟩ :: rest, holes)
termination_by text.length
decreasing_by
  have hlen : (c :: cs).length ≤ text.length := by
    rw [← _h, List.length_drop]
    omega
  simp only [List.length_cons] at hlen
  rw [List.length_drop]
  omega

/-- The lexemes of a query text, and the number of its placeholders. -/
def lex (sql : String) : Except ParseError (List Lexeme × Nat) :=
  lexFrom 0 0 none sql.toList

end DocSql
