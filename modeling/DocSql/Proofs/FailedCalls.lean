import DocSql.Proofs.StoreCalls

/-! # What a failed call leaves

A call of the store can fail because a failure was asked for, or because an increment cannot be
carried out.  In the first case the store is as before, but for the record of the call and the
failure that is used up (`Store.recorded`).  In the second it need not be: increments are carried
out one after the other on the document itself, and those before the failing one stay
(`Store.Halfway`).  This module proves that nothing else remains of a failed call.
-/
namespace DocSql

/-! ### Calls as data -/

/-- What a call gives. -/
def StoreCall.Answer : StoreCall → Type
  | .find .. | .aggregate .. => ResultCursor
  | .insertMany .. => List Value
  | .updateMany .. | .deleteMany .. => Nat
  | .findOneAndIncrement .. => Option Value
  | .listCollectionNames => List String

/-- Carries a call out. -/
def StoreCall.perform : (call : StoreCall) → StoreM call.Answer
  | .find collection args => Store.find collection args
  | .aggregate collection pipeline => Store.aggregate collection pipeline
  | .insertMany collection documents ordered => Store.insertMany collection documents ordered
  | .updateMany collection filter update => Store.updateMany collection filter update
  | .deleteMany collection filter => Store.deleteMany collection filter
  | .findOneAndIncrement collection filter update =>
    Store.findOneAndIncrement collection filter update
  | .listCollectionNames => Store.listCollectionNames

/-- Whether the call increments numbers. -/
def StoreCall.isIncrement : StoreCall → Bool
  | .findOneAndIncrement .. => true
  | _ => false

namespace Store

variable {s s' : Store} {call : StoreCall}

theorem effect_perform_of_failure {why : StoreFault} (h : s.failure = some why) :
    effect call.perform s = (.error (.store why), s.recorded call) := by
  cases call
  all_goals exact effect_bind_of_error (effect_record_of_failure h _) _

theorem effect_openCursor (s : Store) : ∃ cursor s', effect openCursor s = (.ok cursor, s') := by
  rw [openCursor, effect_get_bind]
  cases s.results with
  | nil => exact ⟨_, _, rfl⟩
  | cons documents rest => exact ⟨_, _, rfl⟩

theorem effect_takeCount (s : Store) : ∃ count s', effect takeCount s = (.ok count, s') := by
  rw [takeCount, effect_get_bind]
  cases s.counts with
  | nil => exact ⟨_, _, rfl⟩
  | cons count rest => exact ⟨_, _, rfl⟩

/-- A call other than an increment fails only if that was asked for. -/
theorem effect_perform_of_not_increment (h : s.failure = none) (hcall : call.isIncrement = false) :
    ∃ answer s', effect call.perform s = (.ok answer, s') := by
  cases call with
  | find collection args | aggregate collection pipeline =>
    obtain ⟨cursor, s', hopen⟩ := effect_openCursor (s.recorded _)
    exact ⟨cursor, s', (effect_bind_of_ok (effect_record h _) _).trans hopen⟩
  | updateMany collection filter update | deleteMany collection filter =>
    obtain ⟨count, s', htake⟩ := effect_takeCount (s.recorded _)
    exact ⟨count, s', (effect_bind_of_ok (effect_record h _) _).trans htake⟩
  | insertMany collection documents ordered => exact ⟨_, _, effect_insertMany h _ _ _⟩
  | listCollectionNames => exact ⟨_, _, effect_bind_of_ok (effect_record h _) _⟩
  | findOneAndIncrement => cases hcall

/-! ### Increments that stop -/

/-- Increments stop at the first that fails, with what it and those before it have made of the
document. -/
theorem incrementAll_eq_fault_iff {incs : List (String × Value)} {document left : Fields}
    {why : StoreFault} :
    incrementAll incs document = (some why, left) ↔
      ∃ done path amount rest mid, incs = done ++ (path, amount) :: rest ∧
        incrementAll done document = (none, mid) ∧
        incrementAlong amount (segments path) mid = (some why, left) := by
  induction incs generalizing document with
  | nil => simp [incrementAll]
  | cons inc incs ih =>
    obtain ⟨path, amount⟩ := inc
    rw [incrementAll]
    rcases hinc : incrementAlong amount (segments path) document with ⟨_ | fault, next⟩
    · -- the first increment is carried out, so it is the first of those done
      dsimp only
      rw [ih]
      constructor
      · rintro ⟨done, path', amount', rest, mid, rfl, hdone, hstop⟩
        refine ⟨(path, amount) :: done, path', amount', rest, mid, rfl, ?_, hstop⟩
        rw [incrementAll, hinc]
        exact hdone
      · rintro ⟨done, path', amount', rest, mid, hincs, hdone, hstop⟩
        cases done with
        | nil =>
          cases hincs
          cases hdone
          rw [hinc] at hstop
          cases hstop
        | cons first done =>
          cases hincs
          rw [incrementAll, hinc] at hdone
          exact ⟨done, path', amount', rest, mid, rfl, hdone, hstop⟩
    · dsimp only
      constructor
      · rintro ⟨⟩
        exact ⟨[], path, amount, incs, document, rfl, rfl, hinc⟩
      · rintro ⟨done, path', amount', rest, mid, hincs, hdone, hstop⟩
        cases done with
        | nil =>
          cases hincs
          cases hdone
          rw [← hstop, hinc]
        | cons first done =>
          cases hincs
          rw [incrementAll, hinc] at hdone
          cases hdone

/-- The first document that a filter accepts, with those before and behind it. -/
structure FirstMatch (s : Store) (collection : String) (filter : Value) (before : List Fields)
    (document : Fields) (after : List Fields) : Prop where
  stored : s.documents collection = before ++ document :: after
  skipped : ∀ other ∈ before, matchesFilter filter other = false
  accepted : matchesFilter filter document = true

theorem exists_firstMatch {collection : String} {filter : Value} {document : Fields}
    (h : (s.documents collection).find? (matchesFilter filter) = some document) :
    ∃ before after, s.FirstMatch collection filter before document after := by
  obtain ⟨haccepted, before, after, hstored, hskipped⟩ := List.find?_eq_some_iff_append.mp h
  exact ⟨before, after, hstored, by simpa using hskipped, haccepted⟩

/-- The call is an increment that stops when it has changed the document already: by an increment
before the one that fails, or by the documents that the failing one makes on its way. -/
inductive Halfway (s : Store) : StoreCall → Prop
  | intro {collection path : String} {filter update amount : Value} {before after : List Fields}
      {document mid left : Fields} {done rest : List (String × Value)} {why : StoreFault}
      (ready : s.failure = none)
      (first : s.FirstMatch collection filter before document after)
      (steps : increments update = done ++ (path, amount) :: rest)
      (carried : incrementAll done document = (none, mid))
      (stops : incrementAlong amount (segments path) mid = (some why, left))
      (changed : left ≠ document) :
      Halfway s (.findOneAndIncrement collection filter update)

/-- The store with the documents that a collection has is the same store. -/
theorem withDocuments_eq_self {collection : String} {documents : List Fields}
    (h : s.documents collection = documents) (hne : documents ≠ []) :
    s.withDocuments collection documents = s := by
  have hget : s.collections.get? collection = some documents := by
    rw [Store.documents] at h
    cases hget : s.collections.get? collection with
    | none =>
      rw [hget] at h
      exact absurd h.symm hne
    | some found =>
      rw [hget] at h
      exact congrArg some h
  rw [withDocuments, Entries.insert_eq_self hget]

section

variable {collection : String} {filter update : Value} {before after : List Fields}
  {document left : Fields} {why : StoreFault}

theorem FirstMatch.effect_of_stops (h : s.FirstMatch collection filter before document after)
    (hready : s.failure = none)
    (hstops : incrementAll (increments update) document = (some why, left)) :
    effect (StoreCall.perform (.findOneAndIncrement collection filter update)) s =
      (.error (.store why),
        (s.recorded (.findOneAndIncrement collection filter update)).withDocuments collection
          (before ++ left :: after)) := by
  have heffect := effect_findOneAndIncrement hready h.stored h.skipped h.accepted update
  rw [hstops] at heffect
  exact heffect

/-- A call fails because that was asked for, or as an increment of the first document that its filter
accepts. -/
theorem effect_perform_cases {fault : Fault} (h : effect call.perform s = (.error fault, s')) :
    s.failure ≠ none ∧ s' = s.recorded call ∨
      ∃ collection filter update before document after why left,
        call = .findOneAndIncrement collection filter update ∧ s.failure = none ∧
        s.FirstMatch collection filter before document after ∧
        incrementAll (increments update) document = (some why, left) ∧
        s' = (s.recorded call).withDocuments collection (before ++ left :: after) := by
  cases hfailure : s.failure with
  | some why =>
    rw [effect_perform_of_failure hfailure] at h
    cases h
    exact .inl ⟨Option.some_ne_none why, rfl⟩
  | none =>
    cases hcall : call.isIncrement with
    | false =>
      obtain ⟨answer, after, heffect⟩ := effect_perform_of_not_increment hfailure hcall
      rw [heffect] at h
      cases h
    | true =>
      obtain ⟨collection, filter, update, rfl⟩ :
          ∃ collection filter update, call = .findOneAndIncrement collection filter update := by
        cases call
        case findOneAndIncrement => exact ⟨_, _, _, rfl⟩
        all_goals cases hcall
      refine .inr ⟨collection, filter, update, ?_⟩
      cases hfind : (s.documents collection).find? (matchesFilter filter) with
      | none =>
        have heffect := effect_findOneAndIncrement_of_none hfailure hfind update
        cases heffect.symm.trans h
      | some document =>
        obtain ⟨before, after, hfirst⟩ := exists_firstMatch hfind
        rcases hinc : incrementAll (increments update) document with ⟨_ | why, left⟩
        · have heffect :=
            effect_findOneAndIncrement hfailure hfirst.stored hfirst.skipped hfirst.accepted update
          rw [hinc] at heffect
          cases heffect.symm.trans h
        · rw [hfirst.effect_of_stops hfailure hinc] at h
          cases h
          exact ⟨before, document, after, why, left, rfl, rfl, hfirst, hinc, rfl⟩

end

/-- Whatever a failed call has done halfway is to be seen. -/
theorem Halfway.ne_recorded {fault : Fault} (hhalf : s.Halfway call)
    (h : effect call.perform s = (.error fault, s')) : s' ≠ s.recorded call := by
  cases hhalf with
  | @intro collection path filter update amount before after document mid left done rest why
      ready first steps carried stops changed =>
    have hstops := incrementAll_eq_fault_iff.mpr ⟨done, path, amount, rest, mid, steps, carried, stops⟩
    rw [first.effect_of_stops ready hstops] at h
    cases h
    intro heq
    have hdocuments := congrArg (documents · collection) heq
    simp only [documents_withDocuments, documents_recorded, first.stored, List.append_cancel_left_eq,
      List.cons.injEq, and_true] at hdocuments
    exact changed hdocuments

/-- A failed call leaves the store as it was, with the call recorded and a failure that was asked for
used up, exactly if it did not stop halfway.  In any case it leaves the queued results and numbers,
the ids and the cursors as they were, and of the stored documents all but the one that it was to
increment. -/
theorem failed_call_recorded_iff {fault : Fault} (h : effect call.perform s = (.error fault, s')) :
    (s' = s.recorded call ↔ ¬ s.Halfway call) ∧
      { s' with collections := s.collections } = s.recorded call ∧
      ∀ name, s'.documents name = s.documents name ∨
        ∃ filter update before document left after,
          call = .findOneAndIncrement name filter update ∧
          s.FirstMatch name filter before document after ∧
          s'.documents name = before ++ left :: after := by
  refine ⟨⟨fun heq hhalf => hhalf.ne_recorded h heq, fun hhalf => ?_⟩, ?_, fun name => ?_⟩
  all_goals
    rcases effect_perform_cases h with ⟨_, rfl⟩ |
      ⟨collection, filter, update, before, document, after, why, left, rfl, hready, hfirst, hstops, rfl⟩
  · rfl
  · -- what has been left of the document is the document
    obtain ⟨done, path, amount, rest, mid, hsteps, hcarried, hstop⟩ :=
      incrementAll_eq_fault_iff.mp hstops
    have hsame : left = document := by
      by_contra hchanged
      exact hhalf ⟨hready, hfirst, hsteps, hcarried, hstop, hchanged⟩
    rw [hsame]
    exact withDocuments_eq_self hfirst.stored (by simp)
  · rfl
  · rfl
  · exact .inl rfl
  · by_cases hname : collection = name
    · subst hname
      exact .inr ⟨filter, update, before, document, left, after, rfl, hfirst,
        documents_withDocuments _ _ _⟩
    · exact .inl (documents_withDocuments_of_ne hname _ _)

namespace Sample

/-- A store with one document, whose field `b` is a text. -/
def oneDocument : Store :=
  { collections := [("c", [[("k", .int 1), ("a", .int 1), ("b", .string "x")]])] }

/-- An increment of `a` and of a number below `b`. -/
def incrementBelowText : StoreCall := .findOneAndIncrement "c" (.object [("k", .int 1)])
    (.object [("$inc", .object [("a", .int 1), ("b.c", .int 1)])])

/-- The increment of `a` stays when that below `b` fails. -/
theorem incrementBelowText_halfway :
    ∃ s', effect incrementBelowText.perform oneDocument =
        (.error (.store (.incrementThrough "b")), s') ∧
      s'.documents "c" = [[("k", .int 1), ("a", .int 2), ("b", .string "x")]] ∧
      oneDocument.Halfway incrementBelowText ∧ s' ≠ oneDocument.recorded incrementBelowText := by
  have hrun : effect incrementBelowText.perform oneDocument =
      (.error (.store (.incrementThrough "b")),
        (oneDocument.recorded incrementBelowText).withDocuments "c"
          [[("k", .int 1), ("a", .int 2), ("b", .string "x")]]) := by
    rfl
  have hfirst : oneDocument.FirstMatch "c" (.object [("k", .int 1)]) []
      [("k", .int 1), ("a", .int 1), ("b", .string "x")] [] := ⟨rfl, nofun, rfl⟩
  have hsteps : increments (.object [("$inc", .object [("a", .int 1), ("b.c", .int 1)])]) =
      [("a", .int 1)] ++ [("b.c", .int 1)] := rfl
  have hstops : incrementAlong (.int 1) (segments "b.c")
        [("k", .int 1), ("a", .int 2), ("b", .string "x")] =
      (some (.incrementThrough "b"), [("k", .int 1), ("a", .int 2), ("b", .string "x")]) := rfl
  have hhalf : oneDocument.Halfway incrementBelowText :=
    ⟨rfl, hfirst, hsteps, rfl, hstops, by simp⟩
  exact ⟨_, hrun, rfl, hhalf, fun heq => (failed_call_recorded_iff hrun).1.mp heq hhalf⟩

end Sample

end Store
end DocSql
