import DocSql.Document.Value

/-! # Arguments of a plain search

What a search without a pipeline can ask the document store for.
-/
namespace DocSql

/-- The order of a sorted field. -/
inductive Direction where
  | ascending
  | descending
  deriving DecidableEq

/-- The number that stands for a direction. -/
def Direction.value : Direction → Value
  | .ascending => .int 1
  | .descending => .int (-1)

/-- The arguments of a search. -/
structure FindArgs where
  filter : Option Value := none
  /-- The fields that are wanted; all of them if there is none. -/
  projection : List String := []
  sort : List (String × Direction) := []
  limit : Option Nat := none
  skip : Option Nat := none

/-- The arguments as a document, without those that are not given. -/
def FindArgs.toValue (args : FindArgs) : Value :=
  let filter := args.filter.toList.map fun v => ("filter", v)
  let projection :=
    if args.projection.isEmpty then []
    else [("projection", Value.array (args.projection.map .string))]
  let sort :=
    if args.sort.isEmpty then []
    else [("sort", Value.array (args.sort.map fun (f, d) => .array [.string f, d.value]))]
  let limit := args.limit.toList.map fun (n : Nat) => ("limit", Value.int n)
  let skip := args.skip.toList.map fun (n : Nat) => ("skip", Value.int n)
  .object (filter ++ projection ++ sort ++ limit ++ skip)

end DocSql
