import Mathlib.Data.List.Forall2
import Mathlib.Data.List.TakeDrop
import Mathlib.Data.List.TakeWhile
import DocSql.Proofs.Effects
import DocSql.Store.Basic

/-! # What the calls of the store do

A call is recorded; if a failure was asked for, that is all, and the failure is used up.  Else the
call is carried out.  The statements below say so for the two calls of an insertion: the increment of
a document that a filter finds, and the insertion of documents, to which ids are added.
-/
namespace DocSql
open List
namespace Store

variable {s : Store} {why : StoreFault}

/-! ### Recording -/

/-- The store when a call has been recorded and a failure used up. -/
def recorded (s : Store) (call : StoreCall) : Store :=
  { s with calls := s.calls ++ [call], failure := none }

@[simp] theorem documents_recorded (s : Store) (call : StoreCall) (collection : String) :
    (s.recorded call).documents collection = s.documents collection := rfl

theorem effect_record_of_failure (h : s.failure = some why) (call : StoreCall) :
    effect (record call) s = (.error (.store why), s.recorded call) := by
  rw [record, effect_get_bind, h]
  rfl

theorem effect_record (h : s.failure = none) (call : StoreCall) :
    effect (record call) s = (.ok (), s.recorded call) := by
  rw [record, effect_get_bind, h]
  rfl

/-! ### Inserting -/

/-- What is stored of a document: its fields, and an id if it has none. -/
def Keeps (document stored : Fields) : Prop :=
  ∀ name, stored.get? name = document.get? name ∨ name = "_id" ∧ document.get? name = none

section

variable (group made : Nat) (documents : List Fields)

theorem keeps_assignIds :
    Forall₂ Keeps documents (assignIds group made documents).2.1 := by
  induction documents generalizing made with
  | nil => exact .nil
  | cons document documents ih =>
    rw [assignIds]
    cases hid : document.get? "_id" with
    | some id => exact .cons (fun _ => .inl rfl) (ih made)
    | none =>
      refine .cons (fun name => ?_) (ih (made + 1))
      by_cases hname : "_id" = name
      · subst hname
        exact .inr ⟨rfl, hid⟩
      · exact .inl (Entries.get?_insert_of_ne _ _ hname)

/-- The ids that are reported are those of the stored documents. -/
theorem ids_assignIds :
    (assignIds group made documents).2.1.map (fun stored => stored.get? "_id") =
      (assignIds group made documents).1.map some := by
  induction documents generalizing made with
  | nil => rfl
  | cons document documents ih =>
    rw [assignIds]
    cases hid : document.get? "_id" with
    | some id => simp [hid, ih]
    | none => simp [ih]

/-- The last id that is reported is that of the last document. -/
theorem getLast?_assignIds :
    (assignIds group made documents).2.1.getLast?.bind (fun stored => stored.get? "_id") =
      (assignIds group made documents).1.getLast? := by
  have h := congrArg getLast? (ids_assignIds group made documents)
  rw [getLast?_map, getLast?_map] at h
  cases hids : (assignIds group made documents).1.getLast? with
  | none =>
    rw [hids, Option.map_none, Option.map_eq_none_iff] at h
    rw [h, Option.bind_none]
  | some id =>
    rw [hids, Option.map_some, Option.map_eq_some_iff] at h
    obtain ⟨stored, hstored, hid⟩ := h
    rw [hstored, Option.bind_some, hid]

end

/-- The store when documents have been put into a collection. -/
def inserted (s : Store) (collection : String) (documents : List Fields) : Store :=
  { s with
    collections := s.collections.insert collection
      (s.documents collection ++ (assignIds s.idGroup s.madeIds documents).2.1)
    madeIds := (assignIds s.idGroup s.madeIds documents).2.2 }

theorem documents_inserted (s : Store) (collection : String) (documents : List Fields) :
    (s.inserted collection documents).documents collection =
      s.documents collection ++ (assignIds s.idGroup s.madeIds documents).2.1 := by
  rw [inserted, Store.documents, Entries.get?_insert_self]
  rfl

theorem documents_inserted_of_ne {collection other : String} (h : collection ≠ other) (s : Store)
    (documents : List Fields) :
    (s.inserted collection documents).documents other = s.documents other := by
  rw [inserted, Store.documents, Entries.get?_insert_of_ne _ _ h]
  rfl

theorem effect_insertMany_of_failure (h : s.failure = some why) (collection : String)
    (documents : List Fields) (ordered : Bool) :
    effect (insertMany collection documents ordered) s =
      (.error (.store why), s.recorded (.insertMany collection documents ordered)) :=
  effect_bind_of_error (effect_record_of_failure h _) _

theorem effect_insertMany (h : s.failure = none) (collection : String) (documents : List Fields)
    (ordered : Bool) :
    effect (insertMany collection documents ordered) s =
      (.ok (assignIds s.idGroup s.madeIds documents).1,
        (s.recorded (.insertMany collection documents ordered)).inserted collection documents) :=
  effect_bind_of_ok (effect_record h _) _

/-! ### Incrementing -/

/-- The store with other documents in a collection. -/
def withDocuments (s : Store) (collection : String) (documents : List Fields) : Store :=
  { s with collections := s.collections.insert collection documents }

@[simp] theorem documents_withDocuments (s : Store) (collection : String) (documents : List Fields) :
    (s.withDocuments collection documents).documents collection = documents := by
  rw [withDocuments, Store.documents, Entries.get?_insert_self]
  rfl

theorem documents_withDocuments_of_ne {collection other : String} (h : collection ≠ other) (s : Store)
    (documents : List Fields) :
    (s.withDocuments collection documents).documents other = s.documents other := by
  rw [withDocuments, Store.documents, Entries.get?_insert_of_ne _ _ h]
  rfl

/-- What an increment reports of a document. -/
def incremented : Option StoreFault × Fields → Compiled (Option Value)
  | (none, document) => .ok (some (.object document))
  | (some why, _) => .error (.store why)

theorem effect_findOneAndIncrement_of_failure (h : s.failure = some why) (collection : String)
    (filter update : Value) :
    effect (findOneAndIncrement collection filter update) s =
      (.error (.store why), s.recorded (.findOneAndIncrement collection filter update)) :=
  effect_bind_of_error (effect_record_of_failure h _) _

theorem effect_findOneAndIncrement_of_none (h : s.failure = none) {collection : String}
    {filter : Value} (hfind : (s.documents collection).find? (matchesFilter filter) = none)
    (update : Value) :
    effect (findOneAndIncrement collection filter update) s =
      (.ok none, s.recorded (.findOneAndIncrement collection filter update)) := by
  have hspan : (s.documents collection).span (fun document => !matchesFilter filter document) =
      (s.documents collection, []) := by
    rw [find?_eq_none] at hfind
    rw [span_eq_takeWhile_dropWhile, takeWhile_eq_self_iff.mpr, dropWhile_eq_nil_iff.mpr]
    · simpa using hfind
    · simpa using hfind
  rw [findOneAndIncrement, effect_bind_of_ok (effect_record h _), effect_get_bind,
    documents_recorded, hspan]
  rfl

/-- The first document that the filter accepts is changed in its place. -/
theorem effect_findOneAndIncrement (h : s.failure = none) {collection : String} {filter : Value}
    {before after : List Fields} {document : Fields}
    (hdocuments : s.documents collection = before ++ document :: after)
    (hbefore : ∀ d ∈ before, matchesFilter filter d = false)
    (hdocument : matchesFilter filter document = true) (update : Value) :
    effect (findOneAndIncrement collection filter update) s =
      (incremented (incrementAll (increments update) document),
        (s.recorded (.findOneAndIncrement collection filter update)).withDocuments collection
          (before ++ (incrementAll (increments update) document).2 :: after)) := by
  have hspan : (s.documents collection).span (fun document => !matchesFilter filter document) =
      (before, document :: after) := by
    rw [hdocuments, span_eq_takeWhile_dropWhile, takeWhile_append_of_pos,
      dropWhile_append_of_pos, takeWhile_cons_of_neg, dropWhile_cons_of_neg,
      append_nil]
    all_goals simp_all
  rw [findOneAndIncrement, effect_bind_of_ok (effect_record h _), effect_get_bind,
    documents_recorded, hspan]
  rcases hinc : incrementAll (increments update) document with ⟨_ | fault, document'⟩
  all_goals
    dsimp only
    rw [hinc]
    rfl

end Store
end DocSql
