import DocSql.Proofs.AliasReading
import DocSql.Proofs.PlainOrder

/-! # The order of a sort document

The keys of an order resolve to fields with directions, read from left to right: the first field in
which two documents differ decides.  The store is told so by a document, and a document has a field
once.  A field that is written again keeps its first place and takes its last direction, so two keys
of one field that go different ways are merged into a key that neither the first nor the last of
them is.  `sort_orders_iff` says which documents that concerns, and which orders.
-/
namespace DocSql
open Compiled List

/-! ### Entries that are written one after the other -/

namespace Entries

variable {α β : Type}

theorem get?_eq_find? (es : Entries α) (key : String) :
    es.get? key = (es.find? fun e => e.1 == key).map (·.2) := by
  induction es with
  | nil => rfl
  | cons e es ih =>
    obtain ⟨k, v⟩ := e
    rw [get?_cons]
    by_cases hk : k = key
    · simp [hk]
    · simp [hk, ih]

/-- The first entry with a name of some kind has the first such name, and what is under it. -/
theorem find?_name (p : String → Bool) (es : Entries α) : (es.find? fun e => p e.1) =
      (es.keys.find? p).bind fun key => (es.get? key).map fun value => (key, value) := by
  induction es with
  | nil => rfl
  | cons e es ih =>
    obtain ⟨k, v⟩ := e
    rw [keys_cons]
    by_cases hp : p k
    · have hhead : (((k, v) :: es).find? fun e => p e.1) = some (k, v) := find?_cons_of_pos hp
      rw [hhead, find?_cons_of_pos hp]
      simp [get?_cons]
    · have htail : (((k, v) :: es).find? fun e => p e.1) = es.find? fun e => p e.1 :=
        find?_cons_of_neg hp
      rw [htail, find?_cons_of_neg hp, ih]
      refine Option.bind_congr fun key hkey => ?_
      -- the name that is found is not the one at the head
      have hne : k ≠ key := by
        rintro rfl
        exact hp (find?_some hkey)
      rw [get?_cons, if_neg hne]

theorem find?_keys_insert (p : String → Bool) (es : Entries α) (key : String) (value : α) :
    (es.insert key value).keys.find? p = (es.keys ++ [key]).find? p := by
  rw [keys_insert]
  by_cases hmem : key ∈ es.keys
  · rw [if_pos hmem, find?_append]
    cases hfind : es.keys.find? p with
    | some found => rfl
    | none =>
      have hkey := find?_eq_none.mp hfind key hmem
      simp [hkey]
  · rw [if_neg hmem]

/-- A name that is written again stays where it is, so the first name of some kind is the first one
that was written. -/
theorem find?_keys_insertAll (p : String → Bool) (es new : Entries α) :
    (es.insertAll new).keys.find? p = (es.keys ++ new.keys).find? p := by
  induction new generalizing es with
  | nil => rw [keys_nil, append_nil]; rfl
  | cons e new ih =>
    show ((es.insert e.1 e.2).insertAll new).keys.find? p = _
    rw [ih, find?_append, find?_keys_insert, ← find?_append, keys_cons, append_assoc,
      singleton_append]

theorem insert_map (f : α → β) (es : Entries α) (key : String) (value : α) :
    Entries.insert (es.map fun e => (e.1, f e.2)) key (f value) =
      (es.insert key value).map fun e => (e.1, f e.2) := by
  induction es with
  | nil => rfl
  | cons e es ih =>
    obtain ⟨k, v⟩ := e
    simp only [map_cons, insert]
    by_cases hk : k = key
    · rw [if_pos hk, if_pos hk, map_cons]
    · rw [if_neg hk, if_neg hk, map_cons, ih]

theorem insertAll_map (f : α → β) (es new : Entries α) :
    Entries.insertAll (es.map fun e => (e.1, f e.2)) (new.map fun e => (e.1, f e.2)) =
      (es.insertAll new).map fun e => (e.1, f e.2) := by
  induction new generalizing es with
  | nil => rfl
  | cons e new ih =>
    show Entries.insertAll (Entries.insert (es.map fun e => (e.1, f e.2)) e.1 (f e.2)) _ = _
    rw [insert_map, ih]
    rfl

end Entries

/-! ### Comparing by fields -/

/-- A comparison as it counts in a direction. -/
def Direction.orient : Direction → Ordering → Ordering
  | .ascending, o => o
  | .descending, o => o.swap

@[simp] theorem Direction.orient_eq (d : Direction) : d.orient .eq = .eq := by
  cases d <;> rfl

/-- A difference decides, whatever is compared after it. -/
theorem Direction.orient_then {o : Ordering} (ho : o ≠ .eq) (d : Direction) (rest : Ordering) :
    (d.orient o).then rest = d.orient o := by
  cases o with
  | eq => exact absurd rfl ho
  | lt => cases d <;> rfl
  | gt => cases d <;> rfl

/-- A difference comes out differently in the two directions. -/
theorem Direction.orient_eq_iff {o : Ordering} (ho : o ≠ .eq) (d d' : Direction) :
    d.orient o = d'.orient o ↔ d = d' := by
  cases o with
  | eq => exact absurd rfl ho
  | lt | gt => cases d <;> cases d' <;> decide

/-- The direction that a number stands for. -/
def Direction.ofValue? : Value → Option Direction
  | .int 1 => some .ascending
  | .int (-1) => some .descending
  | _ => none

theorem Direction.ofValue?_value (d : Direction) : ofValue? d.value = some d := by
  cases d <;> rfl

namespace Sorting

/-- The comparison of two documents by fields, from left to right, where `compareAt` compares them
in one field. -/
def compareBy (compareAt : String → Ordering) : List (String × Direction) → Ordering
  | [] => .eq
  | field :: fields => (field.2.orient (compareAt field.1)).then (compareBy compareAt fields)

/-- The first field in which two documents differ. -/
def decisive? (compareAt : String → Ordering) (fields : List (String × Direction)) :
    Option (String × Direction) :=
  fields.find? fun field => compareAt field.1 != .eq

/-- The direction of the last key of a field. -/
def lastDirection? (fields : List (String × Direction)) (name : String) : Option Direction :=
  (fields.reverse.find? fun field => field.1 == name).map (·.2)

/-- The fields that a document tells the store to sort by. -/
def ofDocument? (document : Fields) : Option (List (String × Direction)) :=
  document.mapM fun entry => (Direction.ofValue? entry.2).map fun direction => (entry.1, direction)

variable {compareAt : String → Ordering} {fields : List (String × Direction)}

/-- The first field in which the documents differ decides. -/
theorem compareBy_eq (compareAt : String → Ordering) (fields : List (String × Direction)) :
    compareBy compareAt fields =
      (decisive? compareAt fields).elim .eq fun field => field.2.orient (compareAt field.1) := by
  induction fields with
  | nil => rfl
  | cons field fields ih =>
    rw [compareBy]
    by_cases heq : compareAt field.1 = .eq
    · have hskip : decisive? compareAt (field :: fields) = decisive? compareAt fields :=
        find?_cons_of_neg (by simp [heq])
      rw [hskip, heq, Direction.orient_eq, Ordering.eq_then, ih]
    · have hdecides : decisive? compareAt (field :: fields) = some field :=
        find?_cons_of_pos (by simpa using heq)
      rw [hdecides, Direction.orient_then heq]
      rfl

/-- In a document the same field decides, but it counts in its last direction. -/
theorem decisive?_insertAll (compareAt : String → Ordering) (fields : List (String × Direction)) :
    decisive? compareAt (Entries.insertAll [] fields) =
      (decisive? compareAt fields).bind fun field =>
        (lastDirection? fields field.1).map fun direction => (field.1, direction) := by
  have hget (name : String) :
      (Entries.insertAll [] fields).get? name = lastDirection? fields name := by
    rw [Entries.get?_insertAll, Entries.get?_nil, Option.or_none, lastDirection?]
  calc decisive? compareAt (Entries.insertAll [] fields)
    _ = ((Entries.insertAll [] fields).keys.find? fun name => compareAt name != .eq).bind
          fun name => ((Entries.insertAll [] fields).get? name).map fun value => (name, value) :=
        Entries.find?_name (fun name => compareAt name != .eq) _
    _ = ((Entries.keys fields).find? fun name => compareAt name != .eq).bind
          fun name => (lastDirection? fields name).map fun direction => (name, direction) := by
        rw [Entries.find?_keys_insertAll, Entries.keys_nil, nil_append]
        simp only [hget]
    _ = _ := by
        rw [Entries.keys, find?_map, Option.bind_map]
        rfl

theorem lastDirection?_of_mem {field : String × Direction} (h : field ∈ fields) :
    ∃ direction, lastDirection? fields field.1 = some direction := by
  have hfound : (fields.reverse.find? fun other => other.1 == field.1).isSome :=
    find?_isSome.mpr ⟨field, mem_reverse.mpr h, beq_self_eq_true _⟩
  obtain ⟨last, hlast⟩ := Option.isSome_iff_exists.mp hfound
  exact ⟨last.2, by rw [lastDirection?, hlast, Option.map_some]⟩

/-- Two documents are compared alike by fields and by the document made of them exactly if the field
that decides has the direction of its last key. -/
theorem compareBy_insertAll_iff (compareAt : String → Ordering)
    (fields : List (String × Direction)) :
    compareBy compareAt (Entries.insertAll [] fields) = compareBy compareAt fields ↔
      ∀ field, decisive? compareAt fields = some field →
        lastDirection? fields field.1 = some field.2 := by
  rw [compareBy_eq, compareBy_eq, decisive?_insertAll]
  cases hdecisive : decisive? compareAt fields with
  | none => simp
  | some field =>
    obtain ⟨direction, hlast⟩ := lastDirection?_of_mem (mem_of_find?_eq_some hdecisive)
    have hdiffers : compareAt field.1 ≠ .eq := by simpa using find?_some hdecisive
    simp [hlast, Direction.orient_eq_iff hdiffers]

/-- All documents are compared alike exactly if the first and the last key of each field have the
same direction. -/
theorem compareBy_insertAll_forall_iff (fields : List (String × Direction)) :
    (∀ compareAt, compareBy compareAt (Entries.insertAll [] fields) = compareBy compareAt fields) ↔
      ∀ name, Entries.get? fields name = lastDirection? fields name := by
  constructor
  · intro hall name
    -- two documents that differ in this field alone
    let compareAt (other : String) : Ordering := if other = name then .lt else .eq
    have hdecisive : decisive? compareAt fields = fields.find? fun field => field.1 == name := by
      refine congrArg (fields.find? ·) (funext fun field => ?_)
      by_cases hname : field.1 = name
      · simp [compareAt, hname]
      · simp [compareAt, hname]
    have hagree := (compareBy_insertAll_iff compareAt fields).mp (hall compareAt)
    rw [Entries.get?_eq_find?]
    rw [hdecisive] at hagree
    cases hfind : fields.find? fun field => field.1 == name with
    | none =>
      have hlast : (fields.reverse.find? fun field => field.1 == name) = none := by
        simpa using hfind
      rw [lastDirection?, hlast]
    | some field =>
      obtain rfl : field.1 = name := by simpa using find?_some hfind
      exact (hagree field hfind).symm
  · intro hsame compareAt
    rw [compareBy_insertAll_iff]
    intro field hfield
    have hnames := Entries.find?_name (fun name => compareAt name != .eq) fields
    obtain ⟨name, -, hname⟩ := Option.bind_eq_some_iff.mp (hnames.symm.trans hfield)
    obtain ⟨direction, hdirection, rfl⟩ := Option.map_eq_some_iff.mp hname
    rw [← hsame, hdirection]

/-- The document of an order tells the store to sort by its fields, one after the other written. -/
theorem ofDocument?_document (sorting : Sorting) :
    ofDocument? sorting.document = some (Entries.insertAll [] sorting.fields) := by
  have hdocument : sorting.document =
      (Entries.insertAll [] sorting.fields).map fun field => (field.1, field.2.value) :=
    Entries.insertAll_map Direction.value [] sorting.fields
  rw [hdocument, ofDocument?]
  induction Entries.insertAll [] sorting.fields with
  | nil => rfl
  | cons field fields ih =>
    rw [map_cons, mapM_cons, ih, Direction.ofValue?_value]
    rfl

/-! ### Resolved keys -/

theorem directions_addPlain {columns : Columns} : ∀ {keys : List SortKey} {place : Nat}
    {sorting sorted : Sorting}, addPlain columns place sorting keys = .ok sorted →
    sorted.fields.map (·.2) = sorting.fields.map (·.2) ++ keys.map (·.direction)
  | [], _, _, _, h => by
    cases h
    exact (append_nil _).symm
  | key :: keys, place, sorting, sorted, h => by
    obtain ⟨⟨field, value⟩, -, h⟩ := bind_eq_ok.mp h
    rw [directions_addPlain h]
    simp

theorem directions_exposeKeys {columns : Columns} : ∀ {keys : List SortKey} {g g' : Grouping}
    {fields : List (String × Direction)}, (exposeKeys columns keys).run g = .ok (fields, g') →
    fields.map (·.2) = keys.map (·.direction)
  | [], _, _, _, h => by
    cases h
    rfl
  | key :: keys, g, g', fields, h => by
    rw [exposeKeys, StateT.run_bind] at h
    obtain ⟨⟨name, g₁⟩, -, h⟩ := bind_eq_ok.mp h
    rw [StateT.run_bind] at h
    obtain ⟨⟨rest, g₂⟩, hrest, h⟩ := bind_eq_ok.mp h
    cases h
    rw [map_cons, map_cons, directions_exposeKeys hrest]

/-- The keys of an order are resolved: against documents, the rows of a DISTINCT or the outputs of a
grouping. -/
inductive Resolved (columns : Columns) (sorting sorted : Sorting) : Prop
  | plain (h : sorting.resolvePlain columns = .ok sorted)
  | distinct (h : sorting.resolveDistinct columns = .ok sorted)
  | grouped {g g' : Grouping} (h : sorting.resolveGrouped columns g = .ok (sorted, g'))

/-- Each key resolves to one field, in its direction. -/
theorem Resolved.directions_eq {columns : Columns} {sorting sorted : Sorting}
    (h : Resolved columns sorting sorted) :
    sorted.fields.map (·.2) = sorting.keys.map (·.direction) := by
  cases h with
  | plain h => exact directions_addPlain h
  | distinct h =>
    obtain ⟨fields, hfields, rfl⟩ := bind₁_eq_ok.mp h
    refine map_eq_of_mapM hfields fun key field hkey => ?_
    obtain ⟨item, -, rfl⟩ := bind₁_eq_ok.mp hkey
    rfl
  | grouped h =>
    obtain ⟨⟨fields, g'⟩, hfields, h⟩ := bind_eq_ok.mp h
    cases h
    exact directions_exposeKeys hfields

/-- **The order of a sort document.**  Take an order whose keys are resolved, in any of the three
ways.  Each key has become a field with its direction.  The last stage of the order sorts by a
document, and that document compares two documents as the fields from left to right do exactly if
the first field in which they differ has the direction of its last key.  So all documents are
compared alike exactly if the first and the last key of each field have the same direction. -/
theorem sort_orders_iff {columns : Columns} {sorting sorted : Sorting}
    (h : Resolved columns sorting sorted) :
    sorted.fields.map (·.2) = sorting.keys.map (·.direction) ∧
      ∃ before written,
        Clause.stages sorted = .ok (before ++ [.field "$sort" (.object sorted.document)]) ∧
        ofDocument? sorted.document = some written ∧
        (∀ (compareAt : String → Value → Value → Ordering) (a b : Value),
          compareBy (compareAt · a b) written = compareBy (compareAt · a b) sorted.fields ↔
            ∀ field, decisive? (compareAt · a b) sorted.fields = some field →
              lastDirection? sorted.fields field.1 = some field.2) ∧
        ((∀ (compareAt : String → Value → Value → Ordering) (a b : Value),
          compareBy (compareAt · a b) written = compareBy (compareAt · a b) sorted.fields) ↔
            ∀ name, Entries.get? sorted.fields name = lastDirection? sorted.fields name) := by
  obtain ⟨before, hstages, -, -⟩ := sorted.stages_eq
  refine ⟨h.directions_eq, before, _, hstages, ofDocument?_document sorted,
    fun compareAt a b => compareBy_insertAll_iff _ _, ?_⟩
  rw [← compareBy_insertAll_forall_iff]
  constructor
  · intro hall compareAt
    exact hall (fun name _ _ => compareAt name) .null .null
  · intro hall compareAt a b
    exact hall (compareAt · a b)

/-! ### A field with two directions

The order is by a column, another one and then the first one backwards. -/

namespace TwoWays

open Planned.Sample (reading)

def tokens : List Token :=
  [.keyword .ORDER_BY, .name none "a", .punctuation ',', .name none "b", .punctuation ',',
    .name none "a", .keyword .DESC]

def columns : Columns where
  items := [⟨.column ⟨"t", "a", "a"⟩, "a", none⟩, ⟨.column ⟨"t", "b", "b"⟩, "b", none⟩]
  span := ⟨0, 3⟩

def order : Sorting where
  keys := [⟨.column ⟨"t", "a", "a"⟩, .ascending⟩, ⟨.column ⟨"t", "b", "b"⟩, .ascending⟩,
    ⟨.column ⟨"t", "a", "a"⟩, .descending⟩]
  span := ⟨0, 7⟩

def sorted : Sorting :=
  { order with fields := [("a", .ascending), ("b", .ascending), ("a", .descending)] }

set_option maxRecDepth 8000 in
theorem reads : read? reading ⟨tokens, 0⟩ = .ok (some order, ⟨tokens, 7⟩) := by
  with_unfolding_all rfl

set_option maxRecDepth 8000 in
theorem resolves : order.resolvePlain columns = .ok sorted := by with_unfolding_all rfl

/-- The document sorts backwards by the first column, and so not as the keys do. -/
theorem document_orders_apart :
    read? reading ⟨tokens, 0⟩ = .ok (some order, ⟨tokens, 7⟩) ∧
      order.resolvePlain columns = .ok sorted ∧
      ∃ before written,
        Clause.stages sorted = .ok (before ++ [.field "$sort" (.object sorted.document)]) ∧
        ofDocument? sorted.document = some written ∧
        ¬ ∀ (compareAt : String → Value → Value → Ordering) (a b : Value),
          compareBy (compareAt · a b) written = compareBy (compareAt · a b) sorted.fields := by
  obtain ⟨-, before, written, hstages, hwritten, -, hall⟩ := sort_orders_iff (.plain resolves)
  refine ⟨reads, resolves, before, written, hstages, hwritten, fun hsame => ?_⟩
  have hdirection := hall.mp hsame "a"
  exact absurd hdirection (by decide)

end TwoWays

end Sorting
end DocSql
