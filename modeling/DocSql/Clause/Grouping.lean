import DocSql.Clause.Columns
import DocSql.Term.Transform

/-! # GROUP BY

A grouping is planned before it is written.  The plan holds the keys, the fields that a group
collects beside its key (one for each different aggregate, and one for each other column, of which
the first value is taken), and the outputs: what each item of the SELECT list, and each further
operand of HAVING and ORDER BY, is in terms of the keys and the collected fields.

Aggregates without GROUP BY put all rows into one group.
-/
namespace DocSql

/-- A key of a grouping. -/
structure GroupKey where
  /-- The field below the key of the group. -/
  name : String
  term : Term

/-- What a group collects. -/
inductive Collected where
  /-- The value of an aggregate, with the document that tells the store how. -/
  | aggregate (call : Term) (accumulator : Value)
  /-- The first value of a path. -/
  | first (path : String)

/-- The document that tells the store what to collect. -/
def Collected.document : Collected → Value
  | .aggregate _ accumulator => accumulator
  | .first path => .field "$first" (.path path)

/-- Whether the value of the given aggregate is collected. -/
def Collected.isCall (call : Term) : Collected → Bool
  | .aggregate known _ => known.same call
  | .first _ => false

/-- Whether the first value of the given path is collected. -/
def Collected.isFirst (path : String) : Collected → Bool
  | .aggregate .. => false
  | .first known => known == path

/-- A field that a group collects. -/
structure GroupField where
  name : String
  source : Collected

/-- The plan of a grouping. -/
structure Grouping where
  keys : List GroupKey := []
  fields : List GroupField := []
  /-- The outputs by name: terms over keys and collected fields. -/
  outputs : Entries Term := []
  /-- The outputs that only HAVING and ORDER BY read, with the terms that they stand for. -/
  hidden : List (Term × String) := []
  /-- Whether there is a GROUP BY clause. -/
  explicit : Bool
  span : Span

/-- A step that may add to the plan of a grouping. -/
abbrev Planning := StateT Grouping (Except Fault)

namespace Grouping

/-- The plan with all rows in one group. -/
def implicit (position : Nat) : Grouping := { explicit := false, span := ⟨position, position⟩ }

/-! ### Keys -/

/-- The term of a key.  An alias stands for the item that declares it. -/
def keyTerm (r : Reading) (piece : List Token) : Compiled Term := do
  let t ← { r with aliases := true }.resolveOne piece
  let t ← match t with
    | .field name =>
      match r.scope.aliases.get? name with
      | some t => pure t
      | none => undecodable (.unknownAlias name)
    | t => pure t
  if t.containsAggregate then undecodable .aggregateInGroupBy else return t

/-- The name of the key at a place of the list, before it is made unique. -/
def keyBase (columns : Columns) (place : Nat) (t : Term) : String :=
  match columns.byTerm? t with
  | some item => dotless item.name
  | none => s!"key_{place}"

/-- Reads the keys from a place on.  `taken` holds the names of those before. -/
def readKeys (r : Reading) (columns : Columns) (taken : List String) (place : Nat) :
    List (List Token) → Compiled (List GroupKey)
  | [] => .ok []
  | piece :: pieces => do
    let term ← keyTerm r piece
    let name := freshName taken (keyBase columns place term)
    let keys ← readKeys r columns (name :: taken) (place + 1) pieces
    return { name, term } :: keys

/-- Reads GROUP BY and its keys, where GROUP BY is next. -/
def read? (r : Reading) (columns : Columns) (c : TokenCursor) :
    Compiled (Option Grouping × TokenCursor) :=
  match c.eat? .GROUP_BY with
  | none => .ok (none, c)
  | some afterGroup =>
    let (tokens, after) := afterGroup.takeUntil isClauseKeyword
    if tokens.isEmpty then undecodable .groupWithoutKeys
    else do
      let keys ← readKeys r columns [] 0 (Token.splitCommas tokens)
      return (some { keys, explicit := true, span := .between c after }, after)

/-! ### Collected fields -/

/-- The key with the given term. -/
def key? (g : Grouping) (t : Term) : Option GroupKey := g.keys.find? fun key => key.term.same t

/-- The names beside which a collected field needs another one. -/
def takenNames (g : Grouping) : List String := "_id" :: g.fields.map (·.name)

/-- The plan with one more collected field. -/
def addField (g : Grouping) (name : String) (source : Collected) : Grouping :=
  { g with fields := g.fields ++ [⟨name, source⟩] }

/-- The field that holds the first value of a path. -/
def carry (path : String) : Planning String := do
  let g ← get
  match g.fields.find? fun field => field.source.isFirst path with
  | some field => return field.name
  | none =>
    let name := freshName g.takenNames (dotless path)
    set (g.addField name (.first path))
    return name

/-- The name that a term has by itself. -/
def termName (t : Term) : String := t.defaultName?.getD "expr"

/-- The field that holds the value of an aggregate. -/
def accumulate (call : Term) : Planning String := do
  let g ← get
  match g.fields.find? fun field => field.source.isCall call with
  | some field => return field.name
  | none =>
    let name := freshName g.takenNames (dotless (termName call))
    let accumulator ← call.accumulator
    set (g.addField name (.aggregate call accumulator))
    return name

/-- What a term is after the grouping, where that does not depend on its parts. -/
def lowerNode (t : Term) : Planning (Option Term) := do
  match (← get).key? t with
  | some key => return some (.field ("_id." ++ key.name))
  | none =>
    match t with
    | .column c => return some (.field (← carry c.path))
    | .field name => throw (.undecodable (.aliasBeforeGrouping name))
    | t => if t.isAggregate then return some (.field (← accumulate t)) else return none

/-- The term over keys and collected fields that stands for a term over rows. -/
def lower (t : Term) : Planning Term := t.transform lowerNode true

/-! ### Outputs -/

/-- Adds an output for each item. -/
def addItems : List SelectItem → Planning Unit
  | [] => return ()
  | item :: items => do
    let lowered ← lower item.term
    modify fun g => { g with outputs := g.outputs.insert item.name lowered }
    addItems items

/-- The plan with the SELECT list as its outputs. -/
def addOutputs (g : Grouping) (columns : Columns) : Compiled Grouping := do
  let ((), g) ← (addItems columns.items).run g
  return g

/-- The name of the output that holds a term that is not in the SELECT list. -/
def exposeHidden (t : Term) : Planning String := do
  match (← get).hidden.find? fun known => known.1.same t with
  | some known => return known.2
  | none =>
    let lowered ← lower t
    let g ← get
    let name := freshName g.outputs.keys ("_" ++ dotless (termName t))
    set { g with outputs := g.outputs.insert name lowered, hidden := g.hidden ++ [(t, name)] }
    return name

/-- The name of the output that holds a term. -/
def expose (columns : Columns) (t : Term) : Planning String :=
  match t with
  | .field name => do
    let item ← columns.byName name
    return item.name
  | t =>
    match columns.byTerm? t with
    | some item => return item.name
    | none => exposeHidden t

/-- Whether the grouping has an output for a term as a whole. -/
def knows (g : Grouping) (columns : Columns) (t : Term) : Bool :=
  (columns.byTerm? t).isSome || (g.key? t).isSome || t.fieldPath?.isSome || t.isAggregate

/-- The output that stands for a term, where the grouping has one for it as a whole. -/
def exposeNode (columns : Columns) (t : Term) : Planning (Option Term) := do
  if (← get).knows columns t then return some (.field (← expose columns t)) else return none

/-- The row of a single group of no rows. -/
def emptyRow (columns : Columns) : List Value := columns.items.map fun item => item.term.emptyValue

/-! ### Stages -/

/-- The key of the group. -/
def keyDocument (g : Grouping) : Compiled Value :=
  if g.keys.isEmpty then .ok .null
  else do
    let keys ← g.keys.mapM fun key => do return (key.name, ← key.term.expression)
    return .object keys

/-- The stage that groups. -/
def groupStage (g : Grouping) : Compiled Value := do
  let key ← g.keyDocument
  return .field "$group"
    (.object (("_id", key) :: g.fields.map fun field => (field.name, field.source.document)))

/-- How a collected field becomes the value it stands for, where it is not that already. -/
def GroupField.finalizer? (field : GroupField) : Option (String × Value) :=
  match field.source with
  | .aggregate call _ => (call.finalizer? field.name).map fun value => (field.name, value)
  | .first _ => none

/-- The stage that completes collected fields, where there is one to complete. -/
def finalStages (g : Grouping) : List Value :=
  match g.fields.filterMap GroupField.finalizer? with
  | [] => []
  | fields => [.field "$addFields" (.object fields)]

/-- An output in the projection.  A field that keeps its name is only chosen. -/
def projectOutput (output : String × Term) : Compiled (String × Value) := do
  let value ← match output.2 with
    | .field name => if name = output.1 then pure (.int 1) else (Term.field name).projected
    | t => t.projected
  return (output.1, value)

/-- The stage that leaves the outputs alone. -/
def projectStage (g : Grouping) : Compiled Value := do
  let outputs ← g.outputs.mapM projectOutput
  return .field "$project" (.object (Entries.insertAll [("_id", .int 0)] outputs))

end Grouping

instance : Clause Grouping where
  span := Grouping.span
  stages g := do
    let group ← g.groupStage
    let project ← g.projectStage
    return group :: (g.finalStages ++ [project])

end DocSql
