import DocSql.Document.Path
import DocSql.Fault
import DocSql.FindArgs
import DocSql.Store.Cursor

/-! # The document store

A store in memory that keeps the documents that are put into it, and a record of every call.  It
does not evaluate filters and pipelines: what a search finds, and how many documents an update or a
removal meets, is queued beforehand.  Only the allocation of sequence numbers is carried out,
because later documents depend on it.

Every call is recorded first; a failure that was asked for then takes its place.
-/
namespace DocSql

/-- A call of the store. -/
inductive StoreCall where
  | find (collection : String) (args : FindArgs)
  | aggregate (collection : String) (pipeline : List Value)
  | insertMany (collection : String) (documents : List Fields) (ordered : Bool)
  | updateMany (collection : String) (filter update : Value)
  | deleteMany (collection : String) (filter : Value)
  | findOneAndIncrement (collection : String) (filter update : Value)
  | listCollectionNames

/-- The state of a store. -/
structure Store where
  collections : Entries (List Fields) := []
  /-- The calls so far, in order. -/
  calls : List StoreCall := []
  /-- The documents that the next searches find. -/
  results : List (List Value) := []
  /-- The numbers that the next updates and removals report. -/
  counts : List Nat := []
  /-- The failure of the next call. -/
  failure : Option StoreFault := none
  closedCursors : Nat := 0
  /-- The first group of the ids that the store makes.  Whoever sets the store up chooses it such that
  no other id starts with it. -/
  idGroup : Nat := 0
  /-- How many ids the store has made. -/
  madeIds : Nat := 0

/-- Something done with a store.  The state is kept when it fails. -/
abbrev StoreM := ExceptT Fault (StateM Store)

namespace Store

/-! ### Preparing a store -/

/-- The store with the given documents as a collection.  Other values are left out. -/
def withCollection (s : Store) (name : String) (documents : List Value) : Store :=
  { s with collections := s.collections.insert name (documents.filterMap Value.asObject?) }

/-- The store whose next search finds the given documents, after those queued before. -/
def pushResult (s : Store) (documents : List Value) : Store :=
  { s with results := s.results ++ [documents] }

/-- The store whose next update or removal reports the given number, after those queued before. -/
def pushCount (s : Store) (count : Nat) : Store := { s with counts := s.counts ++ [count] }

/-- The store whose next call fails. -/
def failNext (s : Store) (message : String) : Store := { s with failure := some (.injected message) }

/-- The documents of a collection. -/
def documents (s : Store) (collection : String) : List Fields :=
  (s.collections.get? collection).getD []

/-- The store after one of its cursors has been used. -/
def settle (s : Store) (before after : ResultCursor) : Store :=
  if !before.isClosed && after.isClosed then { s with closedCursors := s.closedCursors + 1 } else s

/-! ### Numbers in documents -/

/-- Whether a document has the fields that a filter asks for, by value or by existence. -/
def matchesFilter (filter : Value) (document : Fields) : Bool :=
  match filter with
  | .object tests => tests.all fun (path, expected) =>
    let found := (Value.object document).walk (segments path)
    match expected.get? "$exists" with
    | some (.bool wanted) => found.isSome == wanted
    | _ => found.any fun value => value.same expected
  | _ => false

/-- Adds to the number below some segments, and makes the documents on the way.  They are made even
where the amount is refused. -/
def incrementAlong (amount : Value) : List String → Fields → Option StoreFault × Fields
  | [], document => (none, document)
  | [name], document =>
    match amount.asInt64? with
    | none => (some .incrementAmount, document)
    | some n =>
      let current := ((document.get? name).bind Value.asInt64?).getD 0
      (none, document.insert name (.int (current + n)))
  | name :: rest, document =>
    match document.get? name with
    | some (.object child) =>
      let (fault, child) := incrementAlong amount rest child
      (fault, document.insert name (.object child))
    | none =>
      let (fault, child) := incrementAlong amount rest []
      (fault, document.insert name (.object child))
    | some _ => (some (.incrementThrough name), document)

/-- Adds to numbers one after the other, up to the first that fails. -/
def incrementAll : List (String × Value) → Fields → Option StoreFault × Fields
  | [], document => (none, document)
  | (path, amount) :: rest, document =>
    match incrementAlong amount (segments path) document with
    | (none, document) => incrementAll rest document
    | (some fault, document) => (some fault, document)

/-- The increments of an update. -/
def increments (update : Value) : List (String × Value) :=
  ((update.get? "$inc").bind Value.asObject?).getD []

/-! ### Ids -/

/-- A number in hexadecimal digits, with zeros in front up to a width. -/
def paddedHex (width n : Nat) : String :=
  let digits := Nat.toDigits 16 n
  String.ofList (List.replicate (width - digits.length) '0' ++ digits)

/-- The id that a store makes for a document: a UUID of version 4 whose last group counts. -/
def makeId (group count : Nat) : Value :=
  .string (paddedHex 8 group ++ "-0000-4000-8000-" ++ paddedHex 12 count)

/-- Gives an id to each document that has none, and collects the ids. -/
def assignIds (group : Nat) : Nat → List Fields → List Value × List Fields × Nat
  | made, [] => ([], [], made)
  | made, document :: rest =>
    match document.get? "_id" with
    | some id =>
      let (ids, documents, made) := assignIds group made rest
      (id :: ids, document :: documents, made)
    | none =>
      let id := makeId group (made + 1)
      let (ids, documents, made) := assignIds group (made + 1) rest
      (id :: ids, document.insert "_id" id :: documents, made)

/-! ### Calls -/

/-- Records a call, and fails if that was asked for. -/
def record (call : StoreCall) : StoreM Unit := do
  let s ← get
  match s.failure with
  | some why =>
    set { s with calls := s.calls ++ [call], failure := none }
    throw (.store why)
  | none => set { s with calls := s.calls ++ [call] }

/-- The cursor over the next queued result. -/
def openCursor : StoreM ResultCursor := do
  let s ← get
  match s.results with
  | [] => return .ofDocuments []
  | documents :: rest =>
    set { s with results := rest }
    return .ofDocuments documents

/-- The next queued number. -/
def takeCount : StoreM Nat := do
  let s ← get
  match s.counts with
  | [] => return 0
  | count :: rest =>
    set { s with counts := rest }
    return count

/-- Searches a collection. -/
def find (collection : String) (args : FindArgs) : StoreM ResultCursor := do
  record (.find collection args)
  openCursor

/-- Runs a pipeline on a collection. -/
def aggregate (collection : String) (pipeline : List Value) : StoreM ResultCursor := do
  record (.aggregate collection pipeline)
  openCursor

/-- Puts documents into a collection, and gives their ids. -/
def insertMany (collection : String) (documents : List Fields) (ordered : Bool) :
    StoreM (List Value) := do
  record (.insertMany collection documents ordered)
  let s ← get
  let (ids, new, madeIds) := assignIds s.idGroup s.madeIds documents
  set { s with
    collections := s.collections.insert collection (s.documents collection ++ new)
    madeIds }
  return ids

/-- Changes documents, and gives their number. -/
def updateMany (collection : String) (filter update : Value) : StoreM Nat := do
  record (.updateMany collection filter update)
  takeCount

/-- Removes documents, and gives their number. -/
def deleteMany (collection : String) (filter : Value) : StoreM Nat := do
  record (.deleteMany collection filter)
  takeCount

/-- Adds to numbers of the first document that a filter accepts, and gives the document after
that. -/
def findOneAndIncrement (collection : String) (filter update : Value) :
    StoreM (Option Value) := do
  record (.findOneAndIncrement collection filter update)
  let s ← get
  match (s.documents collection).span fun document => !matchesFilter filter document with
  | (_, []) => return none
  | (before, document :: after) =>
    let (fault, document) := incrementAll (increments update) document
    set { s with collections := s.collections.insert collection (before ++ document :: after) }
    match fault with
    | some why => throw (.store why)
    | none => return some (.object document)

/-- The names of the collections, in the order in which they were made. -/
def listCollectionNames : StoreM (List String) := do
  record .listCollectionNames
  return (← get).collections.keys

end Store

end DocSql
