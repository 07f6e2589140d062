import DocSql.Command.Insert
import DocSql.Proofs.StoreCalls

/-! # The sequence of a collection

The sequence of a collection is held by the first document of the schema collection that bears the
collection's name and has a field `auto`.  An insertion moves its last number on by the number of its
rows.  This changes no other sequence, because the entry keeps its place and its name.
-/
namespace DocSql
open List

variable {entry auto : Fields}

/-- A sequence: the fields that it fills, and the last number that was taken from it. -/
structure Sequence where
  fields : List String
  last : Int

namespace Sequence

/-- The fields that a sequence fills. -/
def fieldNames (auto : Fields) : List String :=
  (((auto.get? "field_names").bind Value.asArray?).getD []).filterMap Value.asString?

/-- The last number that was taken: 0 where there is none yet, and nothing where it is no number. -/
def lastOf? (auto : Fields) : Option Int :=
  match auto.get? "seq" with
  | none => some 0
  | some value => value.asInt64?

/-- The sequence that an entry holds. -/
def ofDocument? (entry : Fields) : Option Sequence :=
  ((entry.get? "auto").bind Value.asObject?).bind fun auto =>
    (lastOf? auto).map fun last => { fields := fieldNames auto, last }

theorem ofDocument?_of_auto (h : entry.get? "auto" = some (.object auto)) :
    ofDocument? entry = (lastOf? auto).map fun last => { fields := fieldNames auto, last } := by
  rw [ofDocument?, h]
  rfl

theorem ofDocument?_eq_some {q : Sequence} (h : ofDocument? entry = some q) :
    ∃ auto, entry.get? "auto" = some (.object auto) ∧ lastOf? auto = some q.last ∧
      fieldNames auto = q.fields := by
  obtain ⟨auto, hauto, h⟩ := Option.bind_eq_some_iff.mp h
  obtain ⟨last, hlast, rfl⟩ := Option.map_eq_some_iff.mp h
  obtain ⟨value, hvalue, hobject⟩ := Option.bind_eq_some_iff.mp hauto
  cases value with
  | object fields =>
    cases hobject
    exact ⟨auto, hvalue, hlast, rfl⟩
  | _ => cases hobject

end Sequence

namespace Insert

/-- The filter that finds the entry of a collection. -/
def entryFilter (collection : String) : Value :=
  .object [("name", .string collection), ("auto", .field "$exists" (.bool true))]

/-- The update that takes numbers. -/
def takeUpdate (rows : Nat) : Value := .field "$inc" (.field "auto.seq" (.int rows))

/-- Takes numbers for the rows of an insertion, and gives the entry after that. -/
def increment (i : Insert) : StoreM (Option Value) :=
  Store.findOneAndIncrement schemaCollection (entryFilter i.collection) (takeUpdate i.rows.length)

/-! ### The entry -/

theorem walk_field (document : Fields) (name : String) :
    (Value.object document).walk [name] = document.get? name := by
  cases h : document.get? name <;> simp [Value.walk, Value.get?, Value.asObject?, h]

theorem same_string_iff (value : Value) (text : String) :
    value.same (.string text) = true ↔ value = .string text := by
  cases value <;> simp [Value.same]

/-- A document is the entry of a collection if it bears its name and has a field `auto`. -/
theorem matchesFilter_entry (collection : String) (document : Fields) :
    Store.matchesFilter (entryFilter collection) document = true ↔
      document.get? "name" = some (.string collection) ∧ (document.get? "auto").isSome := by
  have hname : segments "name" = ["name"] := by decide
  have hauto : segments "auto" = ["auto"] := by decide
  have hexists : (Value.field "$exists" (.bool true)).get? "$exists" = some (.bool true) := by
    simp [Value.field, Value.get?, Value.asObject?, Entries.get?_cons]
  have htext : (Value.string collection).get? "$exists" = none := rfl
  simp only [Store.matchesFilter, entryFilter, all_cons, all_nil, hname, hauto, walk_field,
    hexists, htext, Bool.and_true, Bool.and_eq_true, Option.any_eq_true, same_string_iff, beq_true]
  simp

/-- Taking numbers writes to the entry as far as the path of the last number goes. -/
theorem incrementAll_take (rows : Nat) (document : Fields) :
    Store.incrementAll (Store.increments (takeUpdate rows)) document =
      Store.incrementAlong (.int rows) ["auto", "seq"] document := by
  have hpath : segments "auto.seq" = ["auto", "seq"] := by decide
  have hupdate : Store.increments (takeUpdate rows) = [("auto.seq", .int rows)] := by
    simp [Store.increments, takeUpdate, Value.field, Value.get?, Value.asObject?, Entries.get?_cons]
  rw [hupdate, Store.incrementAll, hpath]
  rcases Store.incrementAlong (.int rows) ["auto", "seq"] document with ⟨_ | fault, document'⟩ <;> rfl

theorem asInt64?_of_lt {n : Int} (h : n < signedBound) : (Value.int n).asInt64? = some n := if_pos h

theorem eq_of_asInt64? {m n : Int} (h : (Value.int m).asInt64? = some n) : n = m := by
  rw [Value.asInt64?] at h
  split at h
  · exact (Option.some.inj h).symm
  · cases h

theorem incrementAlong_last {amount : Value} {n : Int} (h : amount.asInt64? = some n) (name : String)
    (document : Fields) :
    Store.incrementAlong amount [name] document =
      (none, document.insert name (.int (((document.get? name).bind Value.asInt64?).getD 0 + n))) := by
  rw [Store.incrementAlong, h]

theorem incrementAlong_last_of_none {amount : Value} (h : amount.asInt64? = none) (name : String)
    (document : Fields) :
    Store.incrementAlong amount [name] document = (some .incrementAmount, document) := by
  rw [Store.incrementAlong, h]

/-- An increment goes on inside the document that it meets. -/
theorem incrementAlong_object {document child : Fields} {name : String}
    (h : document.get? name = some (.object child)) (amount : Value) (next : String) :
    Store.incrementAlong amount [name, next] document =
      ((Store.incrementAlong amount [next] child).1,
        document.insert name (.object (Store.incrementAlong amount [next] child).2)) := by
  rw [Store.incrementAlong.eq_def]
  simp only [h]

/-- Taking numbers keeps the name of the entry, and its field `auto`. -/
theorem matchesFilter_increment (h : (entry.get? "auto").isSome) (rows : Nat) (collection : String)
    : Store.matchesFilter (entryFilter collection)
        (Store.incrementAlong (.int rows) ["auto", "seq"] entry).2 =
      Store.matchesFilter (entryFilter collection) entry := by
  rw [Bool.eq_iff_iff, matchesFilter_entry, matchesFilter_entry]
  obtain ⟨value, hvalue⟩ := Option.isSome_iff_exists.mp h
  cases value with
  | object auto =>
    rw [incrementAlong_object hvalue]
    simp [hvalue, Entries.get?_insert_of_ne]
  | _ =>
    rw [Store.incrementAlong.eq_def]
    simp only [hvalue]

/-- The last number of an entry when numbers have been taken. -/
theorem lastOf?_insert {last : Int} (h : Sequence.lastOf? auto = some last) :
    ((auto.get? "seq").bind Value.asInt64?).getD 0 = last := by
  rw [Sequence.lastOf?] at h
  cases hseq : auto.get? "seq" with
  | none =>
    rw [hseq] at h
    exact Option.some.inj h
  | some value =>
    rw [hseq] at h
    have hlast : value.asInt64? = some last := h
    rw [Option.bind_some, hlast, Option.getD_some]

end Insert

/-! ### The sequence of a collection -/

/-- The sequence of a collection. -/
def Store.sequence? (s : Store) (collection : String) : Option Sequence :=
  ((s.documents Insert.schemaCollection).find?
    (Store.matchesFilter (Insert.entryFilter collection))).bind Sequence.ofDocument?

namespace Insert

variable {s : Store} {i : Insert} {collection : String} {q : Sequence}

theorem sequence?_congr {s' : Store}
    (h : s'.documents schemaCollection = s.documents schemaCollection) (collection : String) :
    s'.sequence? collection = s.sequence? collection := by
  rw [Store.sequence?, h, Store.sequence?]

/-- Where a filter first accepts a document. -/
theorem exists_of_find? {filter : Value} {documents : List Fields}
    (h : documents.find? (Store.matchesFilter filter) = some entry) :
    Store.matchesFilter filter entry = true ∧ ∃ before after, documents = before ++ entry :: after ∧
      ∀ d ∈ before, Store.matchesFilter filter d = false := by
  obtain ⟨hentry, before, after, hdocuments, hbefore⟩ := find?_eq_some_iff_append.mp h
  exact ⟨hentry, before, after, hdocuments, fun d hd => by simpa using hbefore d hd⟩

/-- An insertion into another collection does not change the sequence. -/
theorem sequence?_increment_of_ne (h : i.collection ≠ collection) (s : Store) :
    (effect i.increment s).2.sequence? collection = s.sequence? collection := by
  cases hfailure : s.failure with
  | some why =>
    rw [increment, Store.effect_findOneAndIncrement_of_failure hfailure]
    rfl
  | none =>
    cases hfind : (s.documents schemaCollection).find?
        (Store.matchesFilter (entryFilter i.collection)) with
    | none =>
      rw [increment, Store.effect_findOneAndIncrement_of_none hfailure hfind]
      rfl
    | some entry =>
      obtain ⟨hentry, before, after, hdocuments, hbefore⟩ := exists_of_find? hfind
      obtain ⟨hname, hauto⟩ := (matchesFilter_entry ..).mp hentry
      -- the entry that changes bears the other name, before and after
      have hother : Store.matchesFilter (entryFilter collection) entry = false := by
        rw [← Bool.not_eq_true, matchesFilter_entry, hname]
        rintro ⟨heq, -⟩
        cases heq
        exact h rfl
      have hother' := matchesFilter_increment hauto i.rows.length collection
      rw [hother] at hother'
      rw [increment, Store.effect_findOneAndIncrement hfailure hdocuments hbefore hentry,
        incrementAll_take, Store.sequence?, Store.documents_withDocuments, Store.sequence?, hdocuments,
        find?_append, find?_append, find?_cons, find?_cons, hother, hother']

/-- Taking numbers changes no collection but the one of the entries. -/
theorem documents_increment_of_ne (h : schemaCollection ≠ collection) (i : Insert) (s : Store) :
    (effect i.increment s).2.documents collection = s.documents collection := by
  cases hfailure : s.failure with
  | some why =>
    rw [increment, Store.effect_findOneAndIncrement_of_failure hfailure, Store.documents_recorded]
  | none =>
    cases hfind : (s.documents schemaCollection).find?
        (Store.matchesFilter (entryFilter i.collection)) with
    | none =>
      rw [increment, Store.effect_findOneAndIncrement_of_none hfailure hfind, Store.documents_recorded]
    | some entry =>
      obtain ⟨hentry, before, after, hdocuments, hbefore⟩ := exists_of_find? hfind
      rw [increment, Store.effect_findOneAndIncrement hfailure hdocuments hbefore hentry,
        Store.documents_withDocuments_of_ne h, Store.documents_recorded]

theorem fieldOf_object (fields : Fields) (name : String) :
    fieldOf (.object fields) name = (fields.get? name).getD .null := rfl

theorem fieldOf_names (auto : Fields) :
    (((fieldOf (.object auto) "field_names").asArray?).getD []).filterMap Value.asString? =
      Sequence.fieldNames auto := by
  rw [fieldOf_object, Sequence.fieldNames]
  cases auto.get? "field_names" <;> rfl

/-- The entry after numbers have been taken holds the sequence moved on, and gives them. -/
theorem numbers_of_increment {rows : Nat} (hfields : Sequence.fieldNames auto = q.fields)
    (hfit : q.last + rows < signedBound) :
    Sequence.ofDocument? (entry.insert "auto" (.object (auto.insert "seq" (.int (q.last + rows))))) =
        some { q with last := q.last + rows } ∧
      numbersOf collection rows
          (some (.object (entry.insert "auto" (.object (auto.insert "seq" (.int (q.last + rows))))))) =
        .ok { fields := q.fields, first := q.last + 1 } := by
  have hnames : Sequence.fieldNames (auto.insert "seq" (.int (q.last + rows))) = q.fields := by
    rw [Sequence.fieldNames, Entries.get?_insert_of_ne _ _ (by decide), ← hfields]
    rfl
  have hseq : Sequence.lastOf? (auto.insert "seq" (.int (q.last + rows))) = some (q.last + rows) := by
    rw [Sequence.lastOf?, Entries.get?_insert_self]
    exact asInt64?_of_lt hfit
  constructor
  · rw [Sequence.ofDocument?_of_auto (Entries.get?_insert_self ..), hseq, hnames]
    rfl
  · have hauto : fieldOf (.object (entry.insert "auto"
        (.object (auto.insert "seq" (.int (q.last + rows)))))) "auto" =
          .object (auto.insert "seq" (.int (q.last + rows))) := by
      rw [fieldOf_object, Entries.get?_insert_self]
      rfl
    have hnumber : (fieldOf (.object (auto.insert "seq" (.int (q.last + rows)))) "seq").asInt64? =
        some (q.last + rows) := by
      rw [fieldOf_object, Entries.get?_insert_self]
      exact asInt64?_of_lt hfit
    simp only [numbersOf, hauto, hnumber, fieldOf_names, hnames]
    rw [show q.last + rows - rows + 1 = q.last + 1 by omega]

/-- An insertion either takes no numbers, or moves the sequence of its collection on and gets the
numbers behind the last one. -/
theorem increment_cases (hq : s.sequence? i.collection = some q) :
    (∃ fault, (effect i.increment s).1 = .error fault ∧
      (effect i.increment s).2.sequence? i.collection = some q) ∨
    ∃ entry, (effect i.increment s).1 = .ok (some entry) ∧ (q.last + i.rows.length < signedBound →
        (effect i.increment s).2.sequence? i.collection =
          some { q with last := q.last + i.rows.length } ∧
        numbersOf i.collection i.rows.length (some entry) =
          .ok { fields := q.fields, first := q.last + 1 }) := by
  cases hfailure : s.failure with
  | some why =>
    rw [increment, Store.effect_findOneAndIncrement_of_failure hfailure]
    exact .inl ⟨_, rfl, hq⟩
  | none =>
    obtain ⟨entry, hfind, hentry⟩ := Option.bind_eq_some_iff.mp hq
    obtain ⟨auto, hauto, hlast, hfields⟩ := Sequence.ofDocument?_eq_some hentry
    obtain ⟨hmatch, before, after, hdocuments, hbefore⟩ := exists_of_find? hfind
    have hmatch' := matchesFilter_increment (by rw [hauto]; rfl) i.rows.length i.collection
    rw [hmatch] at hmatch'
    -- the entry is still the first one that bears the name
    have hfind' := find?_eq_some_iff_append.mpr ⟨hmatch', before, after, rfl, fun d hd => by
      rw [hbefore d hd]; rfl⟩
    rw [increment, Store.effect_findOneAndIncrement hfailure hdocuments hbefore hmatch,
      incrementAll_take, Store.sequence?, Store.documents_withDocuments, hfind', Option.bind_some,
      incrementAlong_object hauto]
    cases hamount : (Value.int i.rows.length).asInt64? with
    | none =>
      rw [incrementAlong_last_of_none hamount]
      refine .inl ⟨_, rfl, ?_⟩
      rw [Sequence.ofDocument?_of_auto (Entries.get?_insert_self ..), hlast, hfields]
      rfl
    | some n =>
      have hn : n = i.rows.length := eq_of_asInt64? hamount
      subst hn
      rw [incrementAlong_last hamount, lastOf?_insert hlast]
      refine .inr ⟨_, rfl, fun hfit => ?_⟩
      exact numbers_of_increment hfields hfit

end Insert
end DocSql
