import DocSql.Proofs.FailedCalls
import DocSql.Proofs.SequenceRuns
import DocSql.Session.Query

/-! # What is recorded of a session

Everything that a session asks of its store is recorded there.  This module says what the parts of a
session record and what they learn of the collections: an insertion, an update and a removal search
nothing (`Store.Records`); a check of collections asks for their names once, or not at all if all are
known (`Session.Checked`).

A store can be changed by others while a session uses it: it can be told to fail, results can be
queued, cursors be closed.  That may happen between any two calls (`Outside`), so the parts of a
session that make two calls are stated with such a change between them.
-/
namespace DocSql
open List

/-! ### Recording -/

/-- Whether the call searches for documents. -/
def StoreCall.isSearch : StoreCall → Bool
  | .find .. | .aggregate .. => true
  | _ => false

/-- Whether the call asks for the names of the collections. -/
def StoreCall.isListing : StoreCall → Bool
  | .listCollectionNames => true
  | _ => false

/-- The call that a SELECT makes. -/
def SelectCommand.call : SelectCommand → StoreCall
  | .find collection args => .find collection args
  | .aggregate collection pipeline => .aggregate collection pipeline

/-- A change of the store that is no call. -/
structure Outside where
  change : Store → Store
  quiet : ∀ s, (change s).calls = s.calls

/-- Nothing happens to the store. -/
def Outside.none : Outside := ⟨id, fun _ => rfl⟩

/-- The store is told to fail. -/
def Outside.fail (message : String) : Outside := ⟨(·.failNext message), fun _ => rfl⟩

namespace Store

variable {α β : Type}

theorem calls_openCursor (s : Store) : (effect openCursor s).2.calls = s.calls := by
  rw [openCursor, effect_get_bind]
  cases s.results <;> rfl

theorem calls_takeCount (s : Store) : (effect takeCount s).2.calls = s.calls := by
  rw [takeCount, effect_get_bind]
  cases s.counts <;> rfl

theorem effect_listCollectionNames {s : Store} (h : s.failure = none) :
    effect listCollectionNames s = (.ok s.collections.keys, s.recorded .listCollectionNames) :=
  effect_bind_of_ok (effect_record h _) _

/-- What follows the recording of a call is not recorded. -/
theorem calls_record_bind (call : StoreCall) (rest : Unit → StoreM α) (s : Store)
    (h : (effect (rest ()) (s.recorded call)).2.calls = (s.recorded call).calls) :
    (effect (record call >>= rest) s).2.calls = s.calls ++ [call] := by
  cases hfailure : s.failure with
  | some why =>
    rw [effect_bind_of_error (effect_record_of_failure hfailure call)]
    rfl
  | none =>
    rw [effect_bind_of_ok (effect_record hfailure call)]
    exact h

/-- A call is recorded once, whether it fails or not. -/
theorem calls_perform (call : StoreCall) (s : Store) :
    (effect call.perform s).2.calls = s.calls ++ [call] := by
  cases call with
  | find collection args | aggregate collection pipeline =>
    exact calls_record_bind _ _ s (calls_openCursor _)
  | updateMany collection filter update | deleteMany collection filter =>
    exact calls_record_bind _ _ s (calls_takeCount _)
  | insertMany collection documents ordered
  | listCollectionNames => exact calls_record_bind _ _ s rfl
  | findOneAndIncrement collection filter update =>
    cases hfailure : s.failure with
    | some why =>
      rw [effect_perform_of_failure hfailure]
      rfl
    | none =>
      cases hfind : (s.documents collection).find? (matchesFilter filter) with
      | none => exact congrArg (·.2.calls) (effect_findOneAndIncrement_of_none hfailure hfind update)
      | some document =>
        obtain ⟨before, after, hfirst⟩ := exists_firstMatch hfind
        exact congrArg (·.2.calls)
          (effect_findOneAndIncrement hfailure hfirst.stored hfirst.skipped hfirst.accepted update)

/-- The step adds calls with a property to the record, whatever the store. -/
def Records (P : StoreCall → Prop) (step : StoreM α) : Prop :=
  ∀ s, ∃ new, (effect step s).2.calls = s.calls ++ new ∧ ∀ call ∈ new, P call

section

variable {P : StoreCall → Prop}

theorem records_lift (x : Compiled α) : Records P (liftM x : StoreM α) := by
  intro s
  rw [effect_lift]
  exact ⟨[], (append_nil _).symm, nofun⟩

theorem records_pure (a : α) : Records P (pure a : StoreM α) :=
  fun _ => ⟨[], (append_nil _).symm, nofun⟩

theorem records_outside (o : Outside) : Records P (modify o.change : StoreM Unit) :=
  fun s => ⟨[], (o.quiet s).trans (append_nil _).symm, nofun⟩

theorem records_perform (call : StoreCall) (h : P call) : Records P call.perform :=
  fun s => ⟨[call], calls_perform call s, by simpa using h⟩

theorem Records.bind {x : StoreM α} {f : α → StoreM β} (hx : Records P x)
    (hf : ∀ a, Records P (f a)) : Records P (x >>= f) := by
  intro s
  obtain ⟨new, hnew, hP⟩ := hx s
  rcases hrun : effect x s with ⟨fault | a, s'⟩
  · rw [effect_bind_of_error hrun]
    rw [hrun] at hnew
    exact ⟨new, hnew, hP⟩
  · rw [effect_bind_of_ok hrun]
    rw [hrun] at hnew
    obtain ⟨more, hmore, hP'⟩ := hf a s'
    refine ⟨new ++ more, ?_, ?_⟩
    · rw [hmore, hnew, append_assoc]
    · intro call hcall
      exact (mem_append.mp hcall).elim (hP call) (hP' call)

end

end Store

/-! ### Commands -/

/-- An insertion with a change of the store between its two calls. -/
def Insert.executeAround (i : Insert) (meanwhile : Outside) : StoreM Insert.Outcome := do
  let entry ← i.increment
  let numbers ← Insert.numbersOf i.collection i.rows.length entry
  modify meanwhile.change
  i.putRows numbers

theorem Insert.executeAround_none (i : Insert) : i.executeAround .none = i.execute := rfl

theorem Insert.records_executeAround (i : Insert) (meanwhile : Outside) :
    Store.Records (fun call => call.isSearch = false) (i.executeAround meanwhile) := by
  refine .bind (Store.records_perform (.findOneAndIncrement ..) rfl) fun entry => ?_
  refine (Store.records_lift _).bind fun numbers => ?_
  refine (Store.records_outside meanwhile).bind fun _ => ?_
  exact .bind (Store.records_perform (.insertMany ..) rfl) fun _ => Store.records_pure _

theorem Query.openCursor_eq (command : SelectCommand) :
    openCursor command = Store.record command.call >>= fun _ => Store.openCursor := by
  cases command <;> rfl

/-- The search of a SELECT is recorded, and fails only if that was asked for. -/
theorem Query.effect_openCursor (command : SelectCommand) (s : Store) :
    (effect (openCursor command) s).2.calls = s.calls ++ [command.call] ∧
      ∀ fault, (effect (openCursor command) s).1 = .error fault → ∃ why, fault = .store why := by
  rw [openCursor_eq]
  refine ⟨Store.calls_record_bind _ _ s (Store.calls_openCursor _), fun fault hfault => ?_⟩
  cases hfailure : s.failure with
  | some why =>
    rw [effect_bind_of_error (Store.effect_record_of_failure hfailure _)] at hfault
    exact ⟨why, (Except.error.inj hfault).symm⟩
  | none =>
    obtain ⟨cursor, s', hopen⟩ := Store.effect_openCursor (s.recorded command.call)
    rw [effect_bind_of_ok (Store.effect_record hfailure _), hopen] at hfault
    cases hfault

namespace Session

variable {α : Type} {s : Session} {collections : List String}

theorem effect_onStore (act : StoreM α) (s : Session) : effect (onStore act) s =
      ((effect act s.store).1, { s with store := (effect act s.store).2 }) := by
  rw [onStore, effect_get_bind]
  show effect (do
    set { s with store := (effect act s.store).2 }
    match (effect act s.store).1 with
    | .ok a => return a
    | .error fault => throw fault) s = _
  rw [effect_set_bind]
  cases (effect act s.store).1 <;> rfl

/-! ### Knowing collections -/

theorem mem_addName {names : List String} {name other : String} :
    other ∈ addName names name ↔ other ∈ names ∨ other = name := by
  unfold addName
  split
  · rename_i h
    have hmem : name ∈ names := by simpa using h
    constructor
    · exact .inl
    · rintro (h | rfl)
      · exact h
      · exact hmem
  · simp

theorem mem_remembered {known names : List String} {name : String} :
    name ∈ names.foldl addName known ↔ name ∈ known ∨ name ∈ names := by
  induction names generalizing known with
  | nil => simp
  | cons first names ih => rw [foldl_cons, ih, mem_addName, mem_cons, or_assoc]

theorem unknown?_eq_none : s.unknown? collections = none ↔ ∀ c ∈ collections, c ∈ s.cached := by
  simp [unknown?]

theorem unknown?_eq_some {missing : String} (h : s.unknown? collections = some missing) :
    missing ∈ collections ∧ missing ∉ s.cached :=
  ⟨mem_of_find?_eq_some h, by simpa using find?_some h⟩

/-- The session when it has asked for the names of the collections. -/
def listing (s : Session) : Session := { s with store := s.store.recorded .listCollectionNames }

/-- The session when it has been told the names of the collections. -/
def listed (s : Session) : Session :=
  { s.listing with cached := s.store.collections.keys.foldl addName s.cached }

theorem mem_cached_listed {name : String} :
    name ∈ s.listed.cached ↔ name ∈ s.cached ∨ name ∈ s.store.collections.keys := mem_remembered

/-- What a check of collections can come to. -/
inductive Checked (s : Session) (collections : List String) : Compiled Unit → Session → Prop
  /-- All are known. -/
  | known (all : ∀ c ∈ collections, c ∈ s.cached) : Checked s collections (.ok ()) s
  /-- The store fails when it is asked. -/
  | failed {why : StoreFault} {c : String} (unknown : c ∈ collections ∧ c ∉ s.cached)
      (failure : s.store.failure = some why) :
      Checked s collections (.error (.store why)) s.listing
  /-- All are known when the store has been asked. -/
  | found {c : String} (unknown : c ∈ collections ∧ c ∉ s.cached) (ready : s.store.failure = none)
      (all : ∀ c ∈ collections, c ∈ s.listed.cached) : Checked s collections (.ok ()) s.listed
  /-- One is not known when the store has been asked. -/
  | missing {c c' : String} (unknown : c ∈ collections ∧ c ∉ s.cached)
      (ready : s.store.failure = none) (absent : c' ∈ collections ∧ c' ∉ s.listed.cached) :
      Checked s collections (.error (.migration (.collection c'))) s.listed

theorem checked (s : Session) (collections : List String) :
    Checked s collections (effect (checkCollections collections) s).1
      (effect (checkCollections collections) s).2 := by
  rw [checkCollections, effect_get_bind]
  cases hunknown : s.unknown? collections with
  | none => exact .known (unknown?_eq_none.mp hunknown)
  | some c =>
    have hc := unknown?_eq_some hunknown
    cases hfailure : s.store.failure with
    | some why =>
      have hask : effect (onStore Store.listCollectionNames) s = (.error (.store why), s.listing) := by
        rw [effect_onStore, Store.listCollectionNames,
          effect_bind_of_error (Store.effect_record_of_failure hfailure _)]
        rfl
      dsimp only
      rw [effect_bind_of_error hask]
      exact .failed hc hfailure
    | none =>
      have hask : effect (onStore Store.listCollectionNames) s =
          (.ok s.store.collections.keys, s.listing) := by
        rw [effect_onStore, Store.effect_listCollectionNames hfailure]
        rfl
      have hremember : effect (remember s.store.collections.keys) s.listing = (.ok (), s.listed) := rfl
      dsimp only
      rw [effect_bind_of_ok hask, effect_bind_of_ok hremember, effect_get_bind]
      cases hlisted : s.listed.unknown? collections with
      | none => exact .found hc hfailure (unknown?_eq_none.mp hlisted)
      | some c' => exact .missing hc hfailure (unknown?_eq_some hlisted)

end Session

end DocSql
