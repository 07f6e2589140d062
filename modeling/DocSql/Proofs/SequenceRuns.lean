import DocSql.Proofs.InsertedRows
import DocSql.Proofs.SequenceEntries

/-! # Numbers are never given twice

An insertion calls the store twice: it takes numbers for its rows from the sequence of the
collection, and puts the documents of the rows in.  Either call may fail.  Numbers that were taken
are not given back then, so they are never seen twice: over any course of insertions, into this and
other collections, with failures asked for before any of the calls, the numbers that rows get
increase, and the sequence stands at the last one that was taken.
-/
namespace DocSql
open List

/-- The store when it has been told to fail, or has not. -/
def Store.told (s : Store) : Option String → Store
  | none => s
  | some message => s.failNext message

@[simp] theorem Store.documents_told (s : Store) (message : Option String) (collection : String) :
    (s.told message).documents collection = s.documents collection := by
  cases message <;> rfl

namespace Insert

variable {collection : String} {q : Sequence}

/-! ### Insertions that may be disturbed -/

/-- The second half of an insertion: it puts the documents of its rows in. -/
def putRows (i : Insert) (numbers : Numbers) : StoreM Outcome := do
  let (documents, last) := draftRows i.columns numbers.fields numbers.first i.rows
  let ids ← Store.insertMany i.collection documents false
  return { count := ids.length, lastRowId := (last.map Value.int).or ids.getLast? }

/-- An insertion, and the failures that the store is told of before its two calls. -/
structure Attempt where
  insert : Insert
  beforeIncrement : Option String
  beforeInsertion : Option String

/-- What came of an attempt. -/
structure Report where
  insert : Insert
  /-- What the increment of the sequence gave. -/
  entry : Compiled (Option Value)
  /-- The numbers for the rows. -/
  numbers : Compiled Numbers
  /-- The documents that the store was given. -/
  documents : List Fields
  result : Compiled Outcome

/-- The report of an attempt that ends before the store is given documents. -/
def Report.ended (insert : Insert) (entry : Compiled (Option Value)) (fault : Fault) : Report :=
  { insert, entry, numbers := .error fault, documents := [], result := .error fault }

/-- Makes an attempt. -/
def Attempt.run (a : Attempt) (s : Store) : Report × Store :=
  let increment := effect a.insert.increment (s.told a.beforeIncrement)
  match increment.1 with
  | .error fault => (.ended a.insert (.error fault) fault, increment.2)
  | .ok entry =>
    match numbersOf a.insert.collection a.insert.rows.length entry with
    | .error fault => (.ended a.insert (.ok entry) fault, increment.2)
    | .ok numbers =>
      let put := effect (a.insert.putRows numbers) (increment.2.told a.beforeInsertion)
      ({ insert := a.insert, entry := .ok entry, numbers := .ok numbers
         documents := (draftRows a.insert.columns numbers.fields numbers.first a.insert.rows).1
         result := put.1 }, put.2)

variable {a : Attempt} {s after : Store} {entry : Option Value} {numbers : Numbers} {fault : Fault}

theorem Attempt.run_of_error
    (h : effect a.insert.increment (s.told a.beforeIncrement) = (.error fault, after)) :
    a.run s = (.ended a.insert (.error fault) fault, after) := by
  rw [run, h]

theorem Attempt.run_of_no_numbers
    (h : effect a.insert.increment (s.told a.beforeIncrement) = (.ok entry, after))
    (hnumbers : numbersOf a.insert.collection a.insert.rows.length entry = .error fault) :
    a.run s = (.ended a.insert (.ok entry) fault, after) := by
  simp only [run, h, hnumbers]

theorem Attempt.run_of_numbers
    (h : effect a.insert.increment (s.told a.beforeIncrement) = (.ok entry, after))
    (hnumbers : numbersOf a.insert.collection a.insert.rows.length entry = .ok numbers) :
    a.run s =
      ({ insert := a.insert, entry := .ok entry, numbers := .ok numbers
         documents := (draftRows a.insert.columns numbers.fields numbers.first a.insert.rows).1
         result := (effect (a.insert.putRows numbers) (after.told a.beforeInsertion)).1 },
        (effect (a.insert.putRows numbers) (after.told a.beforeInsertion)).2) := by
  simp only [run, h, hnumbers]

theorem execute_eq (i : Insert) : i.execute = i.increment >>= fun entry =>
      liftM (numbersOf i.collection i.rows.length entry) >>= i.putRows := rfl

/-- An attempt that is not disturbed between its calls is the insertion itself. -/
theorem Attempt.run_eq_execute (h : a.beforeInsertion = none) (s : Store) :
    ((a.run s).1.result, (a.run s).2) = effect a.insert.execute (s.told a.beforeIncrement) := by
  rw [execute_eq]
  rcases hincrement : effect a.insert.increment (s.told a.beforeIncrement) with ⟨fault | entry, after⟩
  · rw [effect_bind_of_error hincrement, run_of_error hincrement, Report.ended]
  · rw [effect_bind_of_ok hincrement]
    cases hnumbers : numbersOf a.insert.collection a.insert.rows.length entry with
    | error fault =>
      rw [effect_bind_of_error (effect_lift _ _), run_of_no_numbers hincrement hnumbers, Report.ended]
    | ok numbers =>
      rw [effect_bind_of_ok (effect_lift _ _), run_of_numbers hincrement hnumbers, h]
      rfl

/-! ### What one attempt does -/

theorem putRows_eq (i : Insert) (numbers : Numbers) : i.putRows numbers =
      Store.insertMany i.collection (draftRows i.columns numbers.fields numbers.first i.rows).1 false >>=
        fun ids => pure {
          count := ids.length
          lastRowId := ((draftRows i.columns numbers.fields numbers.first i.rows).2.map Value.int).or
            ids.getLast? } := rfl

/-- Documents go into the collection of the insertion only. -/
theorem documents_putRows_of_ne {i : Insert} {other : String} (h : i.collection ≠ other)
    (numbers : Numbers) (s : Store) :
    (effect (i.putRows numbers) s).2.documents other = s.documents other := by
  rw [putRows_eq]
  cases hfailure : s.failure with
  | some why =>
    rw [effect_bind_of_error (Store.effect_insertMany_of_failure hfailure ..)]
    exact Store.documents_recorded ..
  | none =>
    rw [effect_bind_of_ok (Store.effect_insertMany hfailure ..), effect_pure,
      Store.documents_inserted_of_ne h, Store.documents_recorded]

/-- How many numbers an attempt took from the sequence of a collection. -/
def Report.taken (collection : String) (r : Report) : Nat :=
  match r.entry with
  | .ok _ => if r.insert.collection = collection then r.insert.rows.length else 0
  | .error _ => 0

/-- The numbers that the rows of an attempt got from the sequence of a collection. -/
def Report.given (collection : String) (fields : List String) (r : Report) : List (List Value) :=
  if r.insert.collection = collection then
    givenNumbers r.insert.columns fields r.insert.rows r.documents
  else []

/-- Numbers were taken from a sequence, and rows got some of them. -/
structure Advances (collection : String) (q : Sequence) (taken : Nat) (given : List (List Value))
    (after : Store) : Prop where
  sequence : after.sequence? collection = some { q with last := q.last + taken }
  increasing : given.Pairwise Before
  within : ∀ values ∈ given, Between q.last (q.last + taken) values

theorem Advances.refl (h : s.sequence? collection = some q) : Advances collection q 0 [] s where
  sequence := by rw [h, Int.ofNat_zero, Int.add_zero]
  increasing := .nil
  within := nofun

theorem Advances.trans {taken taken' : Nat} {given given' : List (List Value)} {middle : Store}
    (h : Advances collection q taken given middle)
    (h' : Advances collection { q with last := q.last + taken } taken' given' after) :
    Advances collection q (taken + taken') (given ++ given') after where
  sequence := by
    rw [h'.sequence, Int.natCast_add, Int.add_assoc]
  increasing := by
    refine pairwise_append.mpr ⟨h.increasing, h'.increasing, fun values hv later hl => ?_⟩
    exact (h.within values hv).before (h'.within later hl)
  within := by
    intro values hvalues
    rcases mem_append.mp hvalues with hv | hv
    · exact (h.within values hv).mono (by omega) (by omega)
    · exact (h'.within values hv).mono (by dsimp only; omega) (by dsimp only; omega)

/-- An attempt on another collection leaves the sequence alone. -/
theorem Attempt.sequence?_run_of_ne (h : a.insert.collection ≠ collection)
    (htarget : a.insert.collection ≠ schemaCollection) (s : Store) :
    (a.run s).2.sequence? collection = s.sequence? collection := by
  have hkept := sequence?_increment_of_ne h (s.told a.beforeIncrement)
  rw [sequence?_congr (Store.documents_told ..)] at hkept
  rcases hincrement : effect a.insert.increment (s.told a.beforeIncrement) with ⟨fault | entry, middle⟩
  · rw [run_of_error hincrement, ← hkept, hincrement]
  · rw [hincrement] at hkept
    cases hnumbers : numbersOf a.insert.collection a.insert.rows.length entry with
    | error fault => rw [run_of_no_numbers hincrement hnumbers, ← hkept]
    | ok numbers =>
      rw [run_of_numbers hincrement hnumbers, ← hkept]
      refine sequence?_congr ?_ collection
      rw [documents_putRows_of_ne htarget, Store.documents_told]

/-- An attempt moves the sequence of its collection on by what it took, and numbers its rows from
behind the last number on. -/
theorem Attempt.run_cases (hq : s.sequence? a.insert.collection = some q)
    (htarget : a.insert.collection ≠ schemaCollection) :
    (∃ fault after, a.run s = (.ended a.insert (.error fault) fault, after) ∧
      after.sequence? a.insert.collection = some q) ∨
    ((a.run s).1.entry.isOk ∧ (a.run s).1.insert = a.insert ∧
      (q.last + a.insert.rows.length < signedBound → (a.run s).2.sequence? a.insert.collection =
            some { q with last := q.last + a.insert.rows.length } ∧
          (a.run s).1.numbers = .ok { fields := q.fields, first := q.last + 1 } ∧
          (a.run s).1.documents =
            (draftRows a.insert.columns q.fields (q.last + 1) a.insert.rows).1)) := by
  have hq : (s.told a.beforeIncrement).sequence? a.insert.collection = some q := by
    rw [sequence?_congr (Store.documents_told ..), hq]
  rcases hincrement : effect a.insert.increment (s.told a.beforeIncrement) with ⟨result, middle⟩
  have hcases := increment_cases hq
  rw [hincrement] at hcases
  rcases hcases with ⟨fault, rfl, hsame⟩ | ⟨entry, rfl, hmoved⟩
  · exact .inl ⟨fault, middle, run_of_error hincrement, hsame⟩
  · refine .inr ?_
    cases hnumbers : numbersOf a.insert.collection a.insert.rows.length (some entry) with
    | error fault =>
      rw [run_of_no_numbers hincrement hnumbers]
      refine ⟨rfl, rfl, fun hfit => ?_⟩
      rw [(hmoved hfit).2] at hnumbers
      cases hnumbers
    | ok numbers =>
      rw [run_of_numbers hincrement hnumbers]
      refine ⟨rfl, rfl, fun hfit => ?_⟩
      obtain ⟨hsequence, hgiven⟩ := hmoved hfit
      rw [hnumbers] at hgiven
      cases hgiven
      refine ⟨?_, rfl, rfl⟩
      rw [← hsequence]
      refine sequence?_congr ?_ a.insert.collection
      rw [documents_putRows_of_ne htarget, Store.documents_told]

theorem Attempt.insert_run (a : Attempt) (s : Store) : (a.run s).1.insert = a.insert := by
  rcases h : effect a.insert.increment (s.told a.beforeIncrement) with ⟨fault | entry, after⟩
  · rw [run_of_error h, Report.ended]
  · cases hnumbers : numbersOf a.insert.collection a.insert.rows.length entry with
    | error fault => rw [run_of_no_numbers h hnumbers, Report.ended]
    | ok numbers => rw [run_of_numbers h hnumbers]

theorem Report.taken_of_ne {r : Report} (h : r.insert.collection ≠ collection) :
    r.taken collection = 0 := by
  cases hentry : r.entry <;> simp [taken, hentry, h]

theorem Report.taken_of_ok {r : Report} (h : r.entry.isOk) :
    r.taken r.insert.collection = r.insert.rows.length := by
  cases hentry : r.entry with
  | error fault =>
    rw [hentry] at h
    cases h
  | ok entry => simp [taken, hentry]

/-- What an attempt takes and gives out. -/
theorem Attempt.advances (hq : s.sequence? collection = some q)
    (htarget : a.insert.collection ≠ schemaCollection) (hcolumns : a.insert.columns.Nodup)
    (hfit : q.last + (a.run s).1.taken collection < signedBound) :
    Advances collection q ((a.run s).1.taken collection) ((a.run s).1.given collection q.fields)
      (a.run s).2 := by
  have hinsert := a.insert_run s
  by_cases hcollection : a.insert.collection = collection
  · subst hcollection
    rcases run_cases hq htarget with ⟨fault, after, hrun, hsame⟩ | ⟨hentry, -, hmoved⟩
    · rw [hrun]
      have hgiven :
          (Report.ended a.insert (.error fault) fault).given a.insert.collection q.fields = [] := by
        simp [Report.given, Report.ended, givenNumbers]
      rw [hgiven]
      exact .refl hsame
    · have htaken := Report.taken_of_ok hentry
      rw [hinsert] at htaken
      rw [htaken] at hfit ⊢
      obtain ⟨hsequence, -, hdocuments⟩ := hmoved hfit
      have hgiven : (a.run s).1.given a.insert.collection q.fields =
          givenNumbers a.insert.columns q.fields a.insert.rows
            (draftRows a.insert.columns q.fields (q.last + 1) a.insert.rows).1 := by
        rw [Report.given, hinsert, if_pos rfl, hdocuments]
      rw [hgiven]
      exact ⟨hsequence, increasing_draftRows hcolumns .., between_draftRows hcolumns _ _ _⟩
  · have hgiven : (a.run s).1.given collection q.fields = [] := by
      rw [Report.given, hinsert, if_neg hcollection]
    rw [Report.taken_of_ne (hinsert ▸ hcollection), hgiven]
    exact .refl ((sequence?_run_of_ne hcollection htarget s).trans hq)

/-- The numbers of the rows of an attempt are those behind the last one. -/
theorem Attempt.numbers_run (hq : s.sequence? a.insert.collection = some q)
    (htarget : a.insert.collection ≠ schemaCollection) (hentry : (a.run s).1.entry.isOk)
    (hfit : q.last + (a.run s).1.taken a.insert.collection < signedBound) :
    (a.run s).1.numbers = .ok { fields := q.fields, first := q.last + 1 } := by
  have hinsert := a.insert_run s
  rcases run_cases hq htarget with ⟨fault, after, hrun, -⟩ | ⟨-, -, hmoved⟩
  · rw [hrun] at hentry
    cases hentry
  · have htaken := Report.taken_of_ok hentry
    rw [hinsert] at htaken
    rw [htaken] at hfit
    exact (hmoved hfit).2.1

/-! ### What becomes of the rows -/

/-- The documents hold what the rows give, and the numbers for the rest. -/
def Drafted (columns : List String) (numbers : Numbers) (rows : List (List InsertValue))
    (documents : List Fields) : Prop :=
  documents.length = rows.length ∧ ∀ (k : Nat) (row : List InsertValue) (document : Fields),
    rows[k]? = some row → documents[k]? = some document →
      ∀ name, document.get? name = cell columns numbers.fields (numbers.first + k) row name

/-- What an attempt makes of its rows: documents that are stored as they are, or not at all. -/
structure Carried (a : Attempt) (s : Store) : Prop where
  drafted : ∀ numbers, (a.run s).1.numbers = .ok numbers →
    Drafted a.insert.columns numbers a.insert.rows (a.run s).1.documents
  refused : ∀ fault, (a.run s).1.result = .error fault →
    (a.run s).2.documents a.insert.collection = s.documents a.insert.collection
  stored : ∀ outcome, (a.run s).1.result = .ok outcome → ∃ numbers stored last,
    (a.run s).1.numbers = .ok numbers ∧
    (a.run s).2.documents a.insert.collection = s.documents a.insert.collection ++ stored ∧
    Forall₂ Store.Keeps (a.run s).1.documents stored ∧
    Largest (givenNumbers a.insert.columns numbers.fields a.insert.rows (a.run s).1.documents) last ∧
    outcome.lastRowId = (last.map Value.int).or (stored.getLast?.bind fun d => d.get? "_id")
  executes : a.beforeInsertion = none →
    ((a.run s).1.result, (a.run s).2) = effect a.insert.execute (s.told a.beforeIncrement)

theorem drafted_draftRows {columns : List String} (hnodup : columns.Nodup) (numbers : Numbers)
    (rows : List (List InsertValue)) :
    Drafted columns numbers rows (draftRows columns numbers.fields numbers.first rows).1 := by
  rw [Drafted, draftRows_eq_mapIdx]
  refine ⟨length_mapIdx, fun k row document hrow hdocument name => ?_⟩
  rw [getElem?_mapIdx, hrow] at hdocument
  cases hdocument
  exact get?_draftRow hnodup ..

/-- The documents are put in behind those that are there, or the collection stays as it is. -/
theorem putRows_cases (i : Insert) (numbers : Numbers) (s : Store) :
    (∃ fault, (effect (i.putRows numbers) s).1 = .error fault ∧
      (effect (i.putRows numbers) s).2.documents i.collection = s.documents i.collection) ∨
    ∃ outcome stored, (effect (i.putRows numbers) s).1 = .ok outcome ∧
      (effect (i.putRows numbers) s).2.documents i.collection = s.documents i.collection ++ stored ∧
      Forall₂ Store.Keeps (draftRows i.columns numbers.fields numbers.first i.rows).1 stored ∧
      outcome.lastRowId = ((draftRows i.columns numbers.fields numbers.first i.rows).2.map Value.int).or
        (stored.getLast?.bind fun d => d.get? "_id") := by
  rw [putRows_eq]
  cases hfailure : s.failure with
  | some why =>
    rw [effect_bind_of_error (Store.effect_insertMany_of_failure hfailure ..)]
    exact .inl ⟨_, rfl, Store.documents_recorded ..⟩
  | none =>
    rw [effect_bind_of_ok (Store.effect_insertMany hfailure ..), effect_pure]
    refine .inr ⟨_, _, rfl, Store.documents_inserted .., Store.keeps_assignIds .., ?_⟩
    rw [Store.getLast?_assignIds]
    rfl

/-- Where an attempt ends before documents are put in, nothing becomes of its rows. -/
theorem Carried.of_ended {entry : Compiled (Option Value)}
    (hrun : a.run s = (.ended a.insert entry fault, after))
    (hkept : after.documents a.insert.collection = s.documents a.insert.collection) :
    Carried a s where
  drafted := by
    intro numbers hnumbers
    rw [hrun] at hnumbers
    cases hnumbers
  refused := by
    intro _ _
    rw [hrun, hkept]
  stored := by
    intro outcome houtcome
    rw [hrun] at houtcome
    cases houtcome
  executes h := a.run_eq_execute h s

theorem Attempt.carried (htarget : a.insert.collection ≠ schemaCollection)
    (hcolumns : a.insert.columns.Nodup) (s : Store) : Carried a s := by
  have hkept := documents_increment_of_ne (Ne.symm htarget) a.insert (s.told a.beforeIncrement)
  rw [Store.documents_told] at hkept
  rcases hincrement : effect a.insert.increment (s.told a.beforeIncrement) with ⟨fault | entry, after⟩
  · rw [hincrement] at hkept
    exact .of_ended (run_of_error hincrement) hkept
  · rw [hincrement] at hkept
    cases hnumbers : numbersOf a.insert.collection a.insert.rows.length entry with
    | error fault => exact .of_ended (run_of_no_numbers hincrement hnumbers) hkept
    | ok numbers =>
      have hrun := run_of_numbers hincrement hnumbers
      have hput := putRows_cases a.insert numbers (after.told a.beforeInsertion)
      rw [Store.documents_told, hkept] at hput
      refine ⟨?_, ?_, ?_, fun h => a.run_eq_execute h s⟩
      · rw [hrun]
        rintro _ ⟨⟩
        exact drafted_draftRows hcolumns numbers a.insert.rows
      · rw [hrun]
        intro fault hfault
        rcases hput with ⟨-, -, hsame⟩ | ⟨outcome, -, houtcome, -⟩
        · exact hsame
        · rw [houtcome] at hfault
          cases hfault
      · rw [hrun]
        intro outcome houtcome
        rcases hput with ⟨fault, hfault, -⟩ | ⟨_, stored, heq, hstored, hkeeps, hid⟩
        · rw [hfault] at houtcome
          cases houtcome
        · rw [heq] at houtcome
          cases houtcome
          exact ⟨numbers, stored, _, rfl, hstored, hkeeps, largest_draftRows hcolumns .., hid⟩

/-! ### Many attempts -/

/-- Makes attempts one after the other. -/
def attemptAll : List Attempt → Store → List Report × Store
  | [], s => ([], s)
  | a :: rest, s =>
    ((a.run s).1 :: (attemptAll rest (a.run s).2).1, (attemptAll rest (a.run s).2).2)

/-- How many numbers some attempts took from the sequence of a collection. -/
def takenAll (collection : String) : List Report → Nat
  | [] => 0
  | r :: reports => r.taken collection + takenAll collection reports

/-- The numbers that rows of some attempts got from the sequence of a collection. -/
def givenAll (collection : String) (fields : List String) (reports : List Report) :
    List (List Value) :=
  reports.flatMap (Report.given collection fields)

variable {attempts : List Attempt}

theorem takenAll_append (collection : String) (reports reports' : List Report) :
    takenAll collection (reports ++ reports') =
      takenAll collection reports + takenAll collection reports' := by
  induction reports with
  | nil => simp [takenAll]
  | cons r reports ih => rw [cons_append, takenAll, ih, takenAll, Nat.add_assoc]

/-- A run takes and gives out what its attempts do. -/
theorem advances_attemptAll (hq : s.sequence? collection = some q)
    (htargets : ∀ a ∈ attempts, a.insert.collection ≠ schemaCollection)
    (hcolumns : ∀ a ∈ attempts, a.insert.columns.Nodup)
    (hfit : q.last + takenAll collection (attemptAll attempts s).1 < signedBound) :
    Advances collection q (takenAll collection (attemptAll attempts s).1)
      (givenAll collection q.fields (attemptAll attempts s).1) (attemptAll attempts s).2 := by
  induction attempts generalizing s q with
  | nil => exact .refl hq
  | cons a rest ih =>
    rw [forall_mem_cons] at htargets hcolumns
    rw [attemptAll, takenAll] at hfit ⊢
    have hstep := a.advances hq htargets.1 hcolumns.1 (by omega)
    refine hstep.trans (ih hstep.sequence htargets.2 hcolumns.2 ?_)
    dsimp only
    omega

theorem attemptAll_append (before later : List Attempt) (s : Store) :
    attemptAll (before ++ later) s =
      ((attemptAll before s).1 ++ (attemptAll later (attemptAll before s).2).1,
        (attemptAll later (attemptAll before s).2).2) := by
  induction before generalizing s with
  | nil => rfl
  | cons a before ih => rw [cons_append, attemptAll, ih, attemptAll, cons_append]

/-- An attempt numbers its rows from behind all numbers that were taken before it. -/
theorem numbers_attemptAll {before later : List Attempt} {a : Attempt}
    (hq : s.sequence? a.insert.collection = some q)
    (htargets : ∀ b ∈ before ++ a :: later, b.insert.collection ≠ schemaCollection)
    (hcolumns : ∀ b ∈ before ++ a :: later, b.insert.columns.Nodup)
    (hfit : q.last + takenAll a.insert.collection (attemptAll (before ++ a :: later) s).1 < signedBound)
    (hentry : (a.run (attemptAll before s).2).1.entry.isOk) :
    (a.run (attemptAll before s).2).1.numbers = .ok {
      fields := q.fields
      first := q.last + takenAll a.insert.collection (attemptAll before s).1 + 1 } := by
  have htaken : takenAll a.insert.collection (attemptAll (before ++ a :: later) s).1 =
      takenAll a.insert.collection (attemptAll before s).1 +
        ((a.run (attemptAll before s).2).1.taken a.insert.collection +
          takenAll a.insert.collection (attemptAll later (a.run (attemptAll before s).2).2).1) := by
    rw [attemptAll_append, attemptAll, takenAll_append, takenAll]
  rw [forall_mem_append] at htargets hcolumns
  have hbefore := advances_attemptAll hq htargets.1 hcolumns.1 (by omega)
  refine Attempt.numbers_run hbefore.sequence (htargets.2 a mem_cons_self) hentry ?_
  dsimp only
  omega

/-- **Numbers are never given twice.**  Whatever insertions are attempted on a store, into this and
other collections, and wherever the store fails in between: the numbers that rows get from the
sequence of the collection increase from row to row and from attempt to attempt, the sequence ends up
behind them by the rows of all attempts that took numbers, and each attempt numbers its rows from the
first number on that nobody took before it. -/
theorem numbers_never_reused (hq : s.sequence? collection = some q)
    (htargets : ∀ a ∈ attempts, a.insert.collection ≠ schemaCollection)
    (hcolumns : ∀ a ∈ attempts, a.insert.columns.Nodup)
    (hfit : q.last + takenAll collection (attemptAll attempts s).1 < signedBound) :
    Advances collection q (takenAll collection (attemptAll attempts s).1)
      (givenAll collection q.fields (attemptAll attempts s).1) (attemptAll attempts s).2 ∧
    ∀ before a later, attempts = before ++ a :: later →
      Carried a (attemptAll before s).2 ∧
      (a.insert.collection = collection → (a.run (attemptAll before s).2).1.entry.isOk →
        (a.run (attemptAll before s).2).1.numbers = .ok {
          fields := q.fields
          first := q.last + takenAll collection (attemptAll before s).1 + 1 }) := by
  refine ⟨advances_attemptAll hq htargets hcolumns hfit, ?_⟩
  rintro before a later rfl
  have ha : a ∈ before ++ a :: later := by simp
  refine ⟨Attempt.carried (htargets a ha) (hcolumns a ha) _, ?_⟩
  rintro rfl hentry
  exact numbers_attemptAll hq htargets hcolumns hfit hentry

namespace Sample

/-- A store where three numbers of a collection are taken. -/
def store : Store :=
  { collections := [(schemaCollection, [[("name", .string "t"),
      ("auto", .object [("field_names", .array [.string "id"]), ("seq", .int 3)])]])] }

/-- An insertion of a row that leaves the number open, and of one that gives it. -/
def insertion : Insert :=
  { collection := "t", columns := ["id", "v"]
    rows := [[.default, .value (.int 1)], [.value (.int 100), .default]] }

/-- The first attempt is lost after it took numbers, and the second before. -/
def disturbed : List Attempt :=
  [⟨insertion, none, some "down"⟩, ⟨insertion, some "down", none⟩, ⟨insertion, none, none⟩]

end Sample

/-- The number that the lost attempt took is not given again. -/
theorem numbers_after_failures :
    Sample.store.sequence? "t" = some { fields := ["id"], last := 3 } ∧
    givenAll "t" ["id"] (attemptAll Sample.disturbed Sample.store).1 =
      [[.int 4], [], [.int 6], []] ∧
    (attemptAll Sample.disturbed Sample.store).2.sequence? "t" =
      some { fields := ["id"], last := 7 } := by
  have hq : Sample.store.sequence? "t" = some { fields := ["id"], last := 3 } := by rfl
  have htaken : takenAll "t" (attemptAll Sample.disturbed Sample.store).1 = 4 := by rfl
  have htargets : ∀ a ∈ Sample.disturbed, a.insert.collection ≠ schemaCollection := by
    simp [Sample.disturbed, Sample.insertion, schemaCollection]
  have hcolumns : ∀ a ∈ Sample.disturbed, a.insert.columns.Nodup := by
    simp [Sample.disturbed, Sample.insertion]
  have hfit : 3 + takenAll "t" (attemptAll Sample.disturbed Sample.store).1 < signedBound := by
    rw [htaken, signedBound]
    omega
  have h := (numbers_never_reused hq htargets hcolumns hfit).1.sequence
  refine ⟨hq, rfl, ?_⟩
  rw [htaken] at h
  exact h

end Insert
end DocSql
