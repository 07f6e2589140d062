import DocSql.Dump
import DocSql.ParseError
import DocSql.Statement
import DocSql.Store.Fault

/-! # Faults

Why a query does not compile or does not run.  A fault is of one of four kinds: the query means
nothing (`Undecodable`), it means something that has no counterpart in the document store
(`Unsupported`), the stored data do not have the shape that the query asks for (`SchemaGap`), or the
store itself failed.  `Fault.message` is the only place where they are put into words.
-/
namespace DocSql

/-- Why a query means nothing. -/
inductive Undecodable where
  | unreadable (e : ParseError)
  | parameterCount (bound placeholders : Nat)
  -- names
  | columnBeforeFrom
  | unknownTable (visible : String)
  | unknownQualifier (qualifier : String)
  | unknownAlias (name : String)
  | placeholderOutOfRange (index count : Nat)
  -- terms
  | unrecognisedToken (token : Token)
  | expectedExpression
  | unexpectedAfter (first : Token)
  | oneArgument (fn : String)
  | dateTruncArguments
  | dateTruncUnit
  | notAnAggregate (fn : String)
  | aggregateOutsideGroup (fn : String)
  -- conditions
  | emptyCondition
  | keywordInCondition (k : Keyword)
  | punctuationInCondition (c : Char)
  | isWithoutValue
  | betweenWithoutBounds
  | operandsWithoutOperator
  | missingOperand
  | inWithoutList
  | conditionForValue
  | valueForCondition (t : Term)
  | listOutsideIn
  -- clauses
  | expectedSelect
  | selectWithoutFrom
  | fromWithoutTable
  | expectedTable (token : Token)
  | expectedJoin
  | joinWithoutTable
  | joinWithoutCondition
  | joinWithoutOwnColumn (table : String)
  | selectWithoutColumns
  | emptySelectItem
  | groupWithoutKeys
  | aggregateInGroupBy
  | aliasBeforeGrouping (name : String)
  | unresolvedHaving
  | orderWithoutKeys
  | orderOutsideDistinct (key : Term)
  | windowTwice
  | windowWithoutValue
  | expectedRowCount (token : Token)
  | negativeRowCount (value : Value)
  | updateWithoutSet
  | setWithoutAssignments
  | expectedAssignment
  | expectedColumn (token : Token)
  | unexpectedAt (token : Token) (position : Nat)
  | subselectWidth
  -- forms
  | clauseNeedsPipeline (start stop : Nat)
  | columnsNeedPipeline
  | orderNeedsPipeline
  | setWithoutPipeline
  -- commands
  | expectedInsert
  | insertWithoutTable
  | expectedColumnName
  | valuesWithoutRow
  | malformedRow
  | rowWidth (values columns : Nat)
  | unexpectedInInsert (token : Token)
  | missingSequence (collection : String)
  | expectedUpdate
  | updateWithoutTable
  | expectedDelete
  | rowsOfCommand
  | executeSelect

/-- What has no counterpart in the document store. -/
inductive Unsupported where
  | selectStar
  | scalarSubselect (token : Token)
  | function (name : String)
  | distinctAggregate (fn : Aggregate)
  | dateTruncUnit (unit : String)
  | negatedGroupedLike
  | likeOnComputed
  | likePattern
  | subselectInExpression
  | subselectOutsideIn
  | subselectAsTable
  | join (k : Keyword)
  | joinWithoutOn
  | joinCondition (token : Token)
  | nullsPlacement
  | limitZero
  | computedAssignment (field : String)
  | subselectShape (item : String)
  | insertWithoutColumns
  | insertWithoutValues
  | computedInsertValue (token : Token)
  | subselectInWrite
  | statement (kind : StatementKind)

/-- What the stored data lack. -/
inductive SchemaGap where
  | collection (name : String)
  | column (name : String)

/-- Why a query does not compile or does not run. -/
inductive Fault where
  | undecodable (why : Undecodable)
  | unsupported (what : Unsupported)
  | migration (gap : SchemaGap)
  | store (why : StoreFault)

/-- The words for a query that means nothing. -/
def Undecodable.message : Undecodable → String
  | .unreadable e => e.message
  | .parameterCount bound placeholders =>
    s!"{bound} parameters bound for {placeholders} placeholders"
  | .columnBeforeFrom => "Column referenced before FROM"
  | .unknownTable visible => s!"Unknown table {visible}"
  | .unknownQualifier qualifier => s!"Unknown table '{qualifier}'"
  | .unknownAlias name => s!"Unknown alias '{name}'"
  | .placeholderOutOfRange index count => s!"Placeholder {index} out of range ({count} parameters)"
  | .unrecognisedToken token => "Unrecognised token " ++ token.text
  | .expectedExpression => "Expected an expression"
  | .unexpectedAfter first => "Unexpected token after " ++ first.text
  | .oneArgument fn => s!"{fn}() takes exactly one argument"
  | .dateTruncArguments => "DATE_TRUNC() takes a unit and a column"
  | .dateTruncUnit => "DATE_TRUNC() unit must be a string"
  | .notAnAggregate fn => s!"{fn}() is not an aggregate"
  | .aggregateOutsideGroup fn => s!"aggregate {fn}() used outside of a grouping"
  | .emptyCondition => "Empty condition"
  | .keywordInCondition k => "Unexpected keyword " ++ k.text ++ " in condition"
  | .punctuationInCondition c => "Unexpected '" ++ String.singleton c ++ "' in condition"
  | .isWithoutValue => "IS must be followed by NULL, TRUE or FALSE"
  | .betweenWithoutBounds => "BETWEEN expects `low AND high`"
  | .operandsWithoutOperator => "Malformed condition: operands without an operator"
  | .missingOperand => "Operator is missing an operand"
  | .inWithoutList => "IN expects a list"
  | .conditionForValue => "Expected a value, found a condition"
  | .valueForCondition t => "Expected a condition, found " ++ Dump.term t
  | .listOutsideIn => "Value list outside of IN"
  | .expectedSelect => "Expected SELECT"
  | .selectWithoutFrom => "SELECT without FROM"
  | .fromWithoutTable => "FROM without a table"
  | .expectedTable token => "Expected a table, found " ++ token.text
  | .expectedJoin => "Expected JOIN"
  | .joinWithoutTable => "JOIN without a table"
  | .joinWithoutCondition => "JOIN ... ON without a condition"
  | .joinWithoutOwnColumn table => s!"join condition must compare a column of '{table}'"
  | .selectWithoutColumns => "SELECT without columns"
  | .emptySelectItem => "Empty SELECT item"
  | .groupWithoutKeys => "GROUP BY without keys"
  | .aggregateInGroupBy => "aggregate in GROUP BY"
  | .aliasBeforeGrouping name => s!"alias '{name}' cannot be read before grouping"
  | .unresolvedHaving => "HAVING aggregate could not be resolved"
  | .orderWithoutKeys => "ORDER BY without keys"
  | .orderOutsideDistinct key =>
    "ORDER BY " ++ Dump.term key ++ " must appear in the SELECT DISTINCT list"
  | .windowTwice => "LIMIT/OFFSET given twice"
  | .windowWithoutValue => "LIMIT/OFFSET without a value"
  | .expectedRowCount token => "Expected a row count, found " ++ token.text
  | .negativeRowCount value => "Row count must be a non-negative integer, got " ++ value.text
  | .updateWithoutSet => "UPDATE without SET"
  | .setWithoutAssignments => "SET without assignments"
  | .expectedAssignment => "Expected \"column\" = value in SET"
  | .expectedColumn token => "Expected a column, found " ++ token.text
  | .unexpectedAt token position => "Unexpected " ++ token.text ++ s!" at token {position}"
  | .subselectWidth => "IN (SELECT ...) must select exactly one column"
  | .clauseNeedsPipeline start stop =>
    s!"clause at tokens {start}..{stop} needs an aggregation pipeline"
  | .columnsNeedPipeline => "computed SELECT items need an aggregation pipeline"
  | .orderNeedsPipeline => "computed ORDER BY needs an aggregation pipeline"
  | .setWithoutPipeline => "SET has no pipeline form"
  | .expectedInsert => "Expected INSERT INTO"
  | .insertWithoutTable => "INSERT INTO without a table"
  | .expectedColumnName => "Expected a column name"
  | .valuesWithoutRow => "VALUES without a row"
  | .malformedRow => "Malformed VALUES row"
  | .rowWidth values columns => s!"VALUES row has {values} values for {columns} columns"
  | .unexpectedInInsert token => "Unexpected " ++ token.text ++ " in INSERT"
  | .missingSequence collection => s!"no sequence for '{collection}'"
  | .expectedUpdate => "Expected UPDATE"
  | .updateWithoutTable => "UPDATE without a table"
  | .expectedDelete => "Expected DELETE"
  | .rowsOfCommand => "only a SELECT returns rows"
  | .executeSelect => "a SELECT must be read through rows()"

/-- The words for what has no counterpart. -/
def Unsupported.message : Unsupported → String
  | .selectStar => "SELECT *"
  | .scalarSubselect token => "scalar subquery " ++ token.text
  | .function name => s!"function {name}"
  | .distinctAggregate fn => fn.name.toUpper ++ "(DISTINCT ...)"
  | .dateTruncUnit unit => s!"DATE_TRUNC unit '{unit}'"
  | .negatedGroupedLike => "NOT applied to a parenthesised LIKE"
  | .likeOnComputed => "LIKE on a computed expression"
  | .likePattern => "LIKE pattern must be a string"
  | .subselectInExpression => "IN (SELECT ...) inside an expression"
  | .subselectOutsideIn => "sub-select outside of IN"
  | .subselectAsTable => "sub-select as a table"
  | .join k => k.text
  | .joinWithoutOn => "JOIN without ON"
  | .joinCondition token => "join condition " ++ token.text
  | .nullsPlacement => "NULLS placement against the sort direction"
  | .limitZero => "LIMIT 0"
  | .computedAssignment field => s!"SET \"{field}\" to a computed value"
  | .subselectShape item => s!"IN (SELECT {item})"
  | .insertWithoutColumns => "INSERT without a column list"
  | .insertWithoutValues => "INSERT without VALUES"
  | .computedInsertValue token => "computed INSERT value " ++ token.text
  | .subselectInWrite => "IN (SELECT ...) in a write"
  | .statement kind => kind.name ++ " statement"

/-- The words for what the stored data lack. -/
def SchemaGap.message : SchemaGap → String
  | .collection name => s!"collection '{name}' does not exist"
  | .column name => s!"column '{name}' is missing from a result document"

namespace Fault

/-- The name of the kind of fault. -/
def kind : Fault → String
  | .undecodable _ => "DecodeError"
  | .unsupported _ => "NotSupportedError"
  | .migration _ => "MigrationError"
  | .store _ => "StoreError"

/-- The fault in words, without its kind. -/
def detail : Fault → String
  | .undecodable why => why.message
  | .unsupported what => what.message
  | .migration gap => gap.message
  | .store why => why.message

/-- The fault in words. -/
def message (f : Fault) : String := f.kind ++ ": " ++ f.detail

end Fault

/-- A step of compilation. -/
abbrev Compiled (α : Type) := Except Fault α

/-- Stops because the query means nothing. -/
def undecodable {α : Type} (why : Undecodable) : Compiled α := .error (.undecodable why)

/-- Stops because the query has no counterpart. -/
def unsupported {α : Type} (what : Unsupported) : Compiled α := .error (.unsupported what)

/-- A text that cannot be read is a query that means nothing. -/
def Compiled.ofParse {α : Type} : Except ParseError α → Compiled α
  | .ok x => .ok x
  | .error e => undecodable (.unreadable e)

end DocSql
