import DocSql.Proofs.Effects
import DocSql.Session.Rows

/-! # Reading rows to the end

Whoever reads the rows of a result asks for the next row, closes the rows, or does either again, and
lets go of them at last, which closes them too.  This module follows the cursor below through every
such course: it is closed once, and not asked any more after that; and once there is no row, or a
fault, no row comes back.

What the reader gets is given by a list, `expected`, that is read off the items of the cursor without
any state.  The state enters through `due`, the list of what the reader has still to get: a request
hands out its head and leaves its tail.
-/
namespace DocSql
open List
namespace Rows

variable {values : List Value} {columns : List String} {emptyRow : Option Row}

/-! ### What there is to read -/

/-- The results up to the first failure, with it. -/
def throughFailure {α : Type} : List (Compiled α) → List (Compiled α)
  | [] => []
  | .ok a :: rest => .ok a :: throughFailure rest
  | .error fault :: _ => [.error fault]

/-- The row of what a cursor hands out: a value for each column in order, null where the document
has none.  With an enforced schema the first column without a value is a fault. -/
def rowOf (enforceSchema : Bool) (columns : List String) : Except StoreFault Value → Compiled Row
  | .error why => .error (.store why)
  | .ok document =>
    match columns.find? fun column => enforceSchema && (document.lookup column).isNone with
    | some missing => .error (.migration (.column missing))
    | none => .ok (columns.map fun column => (document.lookup column).getD .null)

/-- The number that the first document holds as its count. -/
def counted : List (Except StoreFault Value) → Nat
  | .ok document :: _ => ((document.get? "_count").bind Value.asNat64?).getD 0
  | _ => 0

/-- What there is to read of a result, from its beginning. -/
def expected (shape : RowShape) (enforceSchema : Bool) :
    List (Except StoreFault Value) → List (Compiled Row)
  | .error why :: _ => [.error (.store why)]
  | items =>
    match shape with
    | .count => [.ok [.int (counted items)]]
    | .constant values => replicate (counted items) (.ok values)
    | .documents columns emptyRow =>
      if items.isEmpty then emptyRow.toList.map .ok
      else throughFailure (items.map (rowOf enforceSchema columns))

/-- What is still to be read.  A count is read once; how often the same row is due is known from the
first request on; and there is no empty row behind another one. -/
def due (r : Rows) : List (Compiled Row) :=
  if r.isClosed then []
  else match r.shape with
    | .count => if r.produced then [] else expected .count r.enforceSchema r.cursor.pending
    | .constant values =>
      match r.remaining with
      | some n => replicate n (.ok values)
      | none => expected (.constant values) r.enforceSchema r.cursor.pending
    | .documents columns emptyRow =>
      expected (.documents columns (if r.produced then none else emptyRow)) r.enforceSchema
        r.cursor.pending

/-- A row has the values of its columns. -/
theorem align_eq (enforceSchema : Bool) (document : Value) (columns : List String) :
    align enforceSchema document columns = rowOf enforceSchema columns (.ok document) := by
  induction columns with
  | nil => rfl
  | cons column columns ih =>
    rw [align, ih]
    cases hfound : document.lookup column with
    | some value =>
      simp only [rowOf, find?_cons, hfound, Option.isNone_some, Bool.and_false, map_cons,
        Option.getD_some]
      cases columns.find? fun column => enforceSchema && (document.lookup column).isNone <;> rfl
    | none =>
      cases enforceSchema with
      | true => simp [rowOf, hfound]
      | false =>
        simp only [rowOf, find?_cons, hfound, Bool.false_and, map_cons, Option.getD_none]
        cases columns.find? fun _ => false <;> rfl

/-! ### Closing -/

variable {r r' : Rows} {row : Row} {fault : Fault}

@[simp] theorem isClosed_close : r.close.isClosed = true := by
  rw [close]
  split
  · assumption
  · simp [isClosed, ResultCursor.close, ResultCursor.isClosed]

theorem due_of_closed (h : r.isClosed = true) : r.due = [] := if_pos h

theorem due_constant (h : r.isClosed = false) {n : Nat} (hshape : r.shape = .constant values)
    (hremaining : r.remaining = some n) : r.due = replicate n (.ok values) := by
  simp [due, h, hshape, hremaining]

theorem due_documents (h : r.isClosed = false) (hshape : r.shape = .documents columns emptyRow) :
    r.due = expected (.documents columns (if r.produced then none else emptyRow)) r.enforceSchema
      r.cursor.pending := by
  simp [due, h, hshape]

theorem next_of_closed (h : r.isClosed = true) : r.next = (none, r) := if_pos h

theorem next_of_row (h : r.isClosed = false) (hrow : effect nextRow r = (.ok (some row), r')) :
    r.next = (some (.ok row), { r' with produced := true }) := by
  rw [next, if_neg (by simp [h]), show nextRow.run.run r = _ from hrow]

theorem next_of_end (h : r.isClosed = false) (hrow : effect nextRow r = (.ok none, r')) :
    r.next = (none, r'.close) := by
  rw [next, if_neg (by simp [h]), show nextRow.run.run r = _ from hrow]

theorem next_of_fault (h : r.isClosed = false) (hrow : effect nextRow r = (.error fault, r')) :
    r.next = (some (.error fault), r'.close) := by
  rw [next, if_neg (by simp [h]), show nextRow.run.run r = _ from hrow]

/-! ### Asking the cursor -/

/-- The rows when the cursor has been asked once more. -/
def asked (r : Rows) : Rows :=
  { r with cursor := { pending := r.cursor.pending.tail, trace := .advanced :: r.cursor.trace } }

/-- What the cursor hands out next. -/
def handedOut (r : Rows) : Compiled (Option Value) :=
  match r.cursor.pending with
  | [] => .ok none
  | .ok document :: _ => .ok (some document)
  | .error why :: _ => .error (.store why)

theorem isClosed_asked : r.asked.isClosed = r.isClosed := by
  simp [asked, isClosed, ResultCursor.isClosed]

theorem effect_fetch (h : r.isClosed = false) : effect fetch r = (r.handedOut, r.asked) := by
  obtain ⟨⟨pending, trace⟩, shape, enforceSchema, remaining, produced, sql, params⟩ := r
  have hcursor : (ResultCursor.mk pending trace).isClosed = false := h
  rw [fetch, effect_get_bind]
  simp only [h, Bool.false_eq_true, if_false, ResultCursor.next, hcursor, effect_set_bind]
  cases pending with
  | nil => rfl
  | cons item rest => cases item <;> rfl

theorem effect_fetch_bind {α : Type} (h : r.isClosed = false) (next : Option Value → RowsM α) :
    effect (fetch >>= next) r = match r.handedOut with
      | .ok document => effect (next document) r.asked
      | .error fault => (.error fault, r.asked) := by
  cases hout : r.handedOut with
  | ok document => exact effect_bind_of_ok (hout ▸ effect_fetch h) _
  | error fault => exact effect_bind_of_error (hout ▸ effect_fetch h) _

/-! ### One request -/

/-- The cursor has at most been asked in between. -/
def Asks (r after : Rows) : Prop :=
  ∃ n, after.cursor.trace = replicate n .advanced ++ r.cursor.trace

theorem asks_self (r : Rows) : r.Asks r := ⟨0, rfl⟩

theorem asks_asked (r : Rows) : r.Asks r.asked := ⟨1, rfl⟩

/-- What is due before a row is asked for, by what comes of it. -/
def owed (after : Rows) : Compiled (Option Row) → List (Compiled Row)
  | .ok (some row) => .ok row :: due { after with produced := true }
  | .ok none => []
  | .error fault => [.error fault]

/-- A step towards the next row asks the cursor at most, and hands out what is due. -/
def Pays (r : Rows) (step : Compiled (Option Row) × Rows) : Prop :=
  r.Asks step.2 ∧ r.due = owed step.2 step.1

theorem pays_count (h : r.isClosed = false) (hshape : r.shape = .count) :
    r.Pays (effect nextRow r) := by
  rw [nextRow, effect_get_bind, hshape]
  cases hproduced : r.produced with
  | true => exact ⟨r.asks_self, by simp [owed, due, h, hshape, hproduced]⟩
  | false =>
    simp only [Bool.false_eq_true, if_false]
    rw [effect_fetch_bind h, handedOut]
    cases hpending : r.cursor.pending with
    | nil =>
      refine ⟨r.asks_asked, ?_⟩
      simp [owed, due, h, hshape, hproduced, hpending, asked, expected, counted, countOf]
    | cons item rest =>
      cases item with
      | error why =>
        refine ⟨r.asks_asked, ?_⟩
        simp [owed, due, h, hshape, hproduced, hpending, expected]
      | ok document =>
        refine ⟨r.asks_asked, ?_⟩
        simp [owed, due, h, hshape, hproduced, hpending, asked, expected, counted, countOf]

/-- The row that is due a number of times is handed out once. -/
theorem pays_repeated (hshape : r.shape = .constant values) {n : Nat}
    (hdue : effect dueRows r = (.ok n, r')) (hopen : r'.isClosed = false)
    (hshape' : r'.shape = .constant values) (hasks : r.Asks r')
    (hn : r.due = replicate n (.ok values)) : r.Pays (effect nextRow r) := by
  rw [nextRow, effect_get_bind, hshape]
  dsimp only
  rw [effect_bind_of_ok hdue]
  cases n with
  | zero => exact ⟨hasks, hn⟩
  | succ n =>
    show r.Pays (.ok (some values), { r' with remaining := some n })
    refine ⟨hasks, ?_⟩
    have hrest : due { r' with remaining := some n, produced := true } = replicate n (.ok values) :=
      due_constant (r := { r' with remaining := some n, produced := true }) hopen hshape' rfl
    rw [hn, replicate_succ, owed, hrest]

theorem pays_constant (h : r.isClosed = false) (hshape : r.shape = .constant values) :
    r.Pays (effect nextRow r) := by
  cases hremaining : r.remaining with
  | some n =>
    have hdue : effect dueRows r = (.ok n, r) := by
      rw [dueRows, effect_get_bind, hremaining]
      rfl
    exact pays_repeated hshape hdue h hshape r.asks_self (due_constant h hshape hremaining)
  | none =>
    have hask : effect dueRows r = effect (fetch >>= fun d => pure (countOf d)) r := by
      rw [dueRows, effect_get_bind, hremaining]
    rw [effect_fetch_bind h, handedOut] at hask
    have hopen : r.asked.isClosed = false := isClosed_asked.trans h
    cases hpending : r.cursor.pending with
    | nil =>
      rw [hpending] at hask
      refine pays_repeated hshape hask hopen hshape r.asks_asked ?_
      simp [due, h, hshape, hremaining, hpending, expected, counted, countOf]
    | cons item rest =>
      cases item with
      | error why =>
        rw [hpending] at hask
        rw [nextRow, effect_get_bind, hshape]
        dsimp only
        rw [effect_bind_of_error hask]
        refine ⟨r.asks_asked, ?_⟩
        simp [owed, due, h, hshape, hremaining, hpending, expected]
      | ok document =>
        rw [hpending] at hask
        refine pays_repeated hshape hask hopen hshape r.asks_asked ?_
        simp [due, h, hshape, hremaining, hpending, expected, counted, countOf]

theorem expected_documents_cons (enforceSchema : Bool) (columns : List String)
    (emptyRow : Option Row) (item : Except StoreFault Value) (rest : List (Except StoreFault Value)) :
    expected (.documents columns emptyRow) enforceSchema (item :: rest) =
      throughFailure (rowOf enforceSchema columns item :: rest.map (rowOf enforceSchema columns)) := by
  cases item <;> rfl

theorem expected_documents_none (enforceSchema : Bool) (columns : List String)
    (items : List (Except StoreFault Value)) :
    expected (.documents columns none) enforceSchema items =
      throughFailure (items.map (rowOf enforceSchema columns)) := by
  cases items with
  | nil => rfl
  | cons item rest => exact expected_documents_cons ..

theorem pays_documents (h : r.isClosed = false) (hshape : r.shape = .documents columns emptyRow) :
    r.Pays (effect nextRow r) := by
  rw [nextRow, effect_get_bind, hshape]
  dsimp only
  rw [effect_fetch_bind h, handedOut]
  have hopen : r.asked.isClosed = false := isClosed_asked.trans h
  -- once there has been a row, only documents are due
  have hrest : due { r.asked with produced := true } =
      throughFailure (r.cursor.pending.tail.map (rowOf r.enforceSchema columns)) :=
    (due_documents (r := { r.asked with produced := true }) hopen hshape).trans
      (expected_documents_none ..)
  cases hpending : r.cursor.pending with
  | nil =>
    refine ⟨r.asks_asked, ?_⟩
    rw [due_documents h hshape, hpending]
    rw [hpending] at hrest
    cases r.produced with
    | true => rfl
    | false =>
      cases emptyRow with
      | none => rfl
      | some row => exact congrArg _ hrest.symm
  | cons item rest =>
    rw [hpending] at hrest
    cases item with
    | error why =>
      refine ⟨r.asks_asked, ?_⟩
      rw [due_documents h hshape, hpending]
      rfl
    | ok document =>
      dsimp only
      have halign := align_eq r.enforceSchema document columns
      have hdue := due_documents h hshape
      rw [hpending, expected_documents_cons, ← halign] at hdue
      cases hrow : align r.enforceSchema document columns with
      | error fault =>
        rw [effect_bind_of_error (effect_lift _ _)]
        exact ⟨r.asks_asked, by rw [hdue, hrow]; rfl⟩
      | ok row =>
        rw [effect_bind_of_ok (effect_lift _ _)]
        refine ⟨r.asks_asked, ?_⟩
        rw [hdue, hrow]
        exact congrArg _ hrest.symm

theorem nextRow_pays (h : r.isClosed = false) : r.Pays (effect nextRow r) := by
  cases hshape : r.shape with
  | count => exact pays_count h hshape
  | constant values => exact pays_constant h hshape
  | documents columns emptyRow => exact pays_documents h hshape

/-- Asking for a row hands out the first of what is due, and leaves the others. -/
theorem next_due (r : Rows) : r.next.1 = r.due.head? ∧ r.next.2.due = r.due.tail := by
  cases h : r.isClosed with
  | true =>
    have hdue := due_of_closed h
    rw [next_of_closed h, hdue]
    exact ⟨rfl, rfl⟩
  | false =>
    obtain ⟨-, hdue⟩ := nextRow_pays h
    rcases hstep : effect nextRow r with ⟨result, after⟩
    rw [hstep] at hdue
    cases result with
    | error fault =>
      rw [next_of_fault h hstep, hdue]
      exact ⟨rfl, due_of_closed isClosed_close⟩
    | ok found =>
      cases found with
      | none =>
        rw [next_of_end h hstep, hdue]
        exact ⟨rfl, due_of_closed isClosed_close⟩
      | some row =>
        rw [next_of_row h hstep, hdue]
        exact ⟨rfl, rfl⟩

/-- Only a row keeps the cursor open. -/
theorem isClosed_next (h : ∀ row, r.next.1 ≠ some (.ok row)) : r.next.2.isClosed = true := by
  cases hclosed : r.isClosed with
  | true => rw [next_of_closed hclosed, hclosed]
  | false =>
    rcases hstep : effect nextRow r with ⟨result, after⟩
    cases result with
    | error fault =>
      rw [next_of_fault hclosed hstep]
      exact isClosed_close
    | ok found =>
      cases found with
      | none =>
        rw [next_of_end hclosed hstep]
        exact isClosed_close
      | some row => exact absurd (congrArg Prod.fst (next_of_row hclosed hstep)) (h row)

/-! ### A course of requests -/

/-- What a reader can ask for. -/
inductive Request where
  | next
  | close

/-- The rows after a request. -/
def serve (r : Rows) : Request → Rows
  | .next => r.next.2
  | .close => r.close

/-- The rows after requests, in their order. -/
def serveAll (r : Rows) (requests : List Request) : Rows := requests.foldl serve r

theorem serveAll_append (r : Rows) (before : List Request) (request : Request)
    (later : List Request) :
    r.serveAll (before ++ request :: later) = ((r.serveAll before).serve request).serveAll later := by
  rw [serveAll, foldl_append, foldl_cons]
  rfl

/-- What is closed stays closed. -/
theorem isClosed_serveAll (h : r.isClosed = true) (requests : List Request) :
    (r.serveAll requests).isClosed = true := by
  induction requests generalizing r with
  | nil => exact h
  | cons request requests ih =>
    cases request with
    | next =>
      refine ih (r := r.next.2) ?_
      rw [next_of_closed h, h]
    | close => exact ih isClosed_close

/-- No row comes after a request that has closed the rows. -/
theorem next_serveAll_of_closed {before : List Request} {request : Request}
    (h : ((r.serveAll before).serve request).isClosed = true) (later : List Request) :
    (r.serveAll (before ++ request :: later)).next.1 = none := by
  rw [serveAll_append, next_of_closed (isClosed_serveAll h later)]

/-- A cursor that was asked any number of times, and then closed or not. -/
def Tidy (c : ResultCursor) : Prop :=
  ∃ n, c.trace = replicate n .advanced ∨ c.trace = .closed :: replicate n .advanced

/-- A cursor that is still open has only been asked. -/
theorem Tidy.of_open {c : ResultCursor} (h : Tidy c) (hopen : c.isClosed = false) :
    ∃ n, c.trace = replicate n .advanced := by
  obtain ⟨n, htrace | htrace⟩ := h
  · exact ⟨n, htrace⟩
  · simp [ResultCursor.isClosed, htrace] at hopen

/-- Letting go of the rows closes a cursor that is not closed yet. -/
theorem Tidy.close (h : Tidy r.cursor) :
    ∃ n, r.close.cursor.trace = .closed :: replicate n .advanced := by
  cases hclosed : r.isClosed with
  | true =>
    rw [Rows.close, if_pos hclosed]
    obtain ⟨n, htrace | htrace⟩ := h
    · simp [isClosed, ResultCursor.isClosed, htrace] at hclosed
    · exact ⟨n, htrace⟩
  | false =>
    obtain ⟨n, htrace⟩ := h.of_open hclosed
    rw [Rows.close, if_neg (by simp [hclosed])]
    exact ⟨n, congrArg _ htrace⟩

theorem Tidy.asks (h : Tidy r.cursor) (hopen : r.isClosed = false) (hasks : r.Asks r') :
    Tidy r'.cursor := by
  obtain ⟨n, htrace⟩ := h.of_open hopen
  obtain ⟨m, hasks⟩ := hasks
  exact ⟨m + n, .inl (by rw [hasks, htrace, replicate_append_replicate])⟩

theorem Tidy.serve (h : Tidy r.cursor) (request : Request) : Tidy (r.serve request).cursor := by
  cases request with
  | close =>
    obtain ⟨n, htrace⟩ := h.close
    exact ⟨n, .inr htrace⟩
  | next =>
    show Tidy r.next.2.cursor
    cases hclosed : r.isClosed with
    | true =>
      rw [next_of_closed hclosed]
      exact h
    | false =>
      have hasks := (nextRow_pays hclosed).1
      rcases hstep : effect nextRow r with ⟨result, after⟩
      rw [hstep] at hasks
      have hafter : Tidy after.cursor := h.asks hclosed hasks
      obtain ⟨n, htrace⟩ := hafter.close
      cases result with
      | error fault =>
        rw [next_of_fault hclosed hstep]
        exact ⟨n, .inr htrace⟩
      | ok found =>
        cases found with
        | none =>
          rw [next_of_end hclosed hstep]
          exact ⟨n, .inr htrace⟩
        | some row =>
          rw [next_of_row hclosed hstep]
          exact hafter

theorem Tidy.serveAll (h : Tidy r.cursor) (requests : List Request) :
    Tidy (r.serveAll requests).cursor := by
  induction requests generalizing r with
  | nil => exact h
  | cons request requests ih => exact ih (h.serve request)

/-- Reading row after row hands out what is due, one after the other. -/
theorem next_serveAll_replicate (r : Rows) (n : Nat) :
    (r.serveAll (replicate n .next)).next.1 = r.due[n]? := by
  induction n generalizing r with
  | zero => rw [← head?_eq_getElem?]; exact r.next_due.1
  | succ n ih =>
    rw [replicate_succ]
    show (r.next.2.serveAll (replicate n .next)).next.1 = _
    rw [ih, r.next_due.2, getElem?_tail]

/-! ### Reading a result -/

/-- The rows of a result of which none has been read. -/
def opened (items : List (Except StoreFault Value)) (shape : RowShape) (enforceSchema : Bool)
    (sql : String) (params : List Value) : Rows :=
  { cursor := { pending := items }, shape, enforceSchema, sql, params }

theorem due_opened (items : List (Except StoreFault Value)) (shape : RowShape) (enforceSchema : Bool)
    (sql : String) (params : List Value) :
    (opened items shape enforceSchema sql params).due = expected shape enforceSchema items := by
  cases shape <;> rfl

/-- **Reading rows.**  For every shape of the rows, whatever the cursor hands out and whatever the
reader asks for: when the rows are let go of, the cursor has been closed once, as the last thing it
was asked; no row comes after the rows were closed, or after an end or a fault; and a reader who only
asks for rows gets what is expected of the result, and then nothing. -/
theorem reading_is_orderly (items : List (Except StoreFault Value)) (shape : RowShape)
    (enforceSchema : Bool) (sql : String) (params : List Value) :
    let r := opened items shape enforceSchema sql params
    (∀ requests, ∃ n,
      (r.serveAll requests).close.cursor.trace = .closed :: List.replicate n .advanced) ∧
    (∀ before later, (r.serveAll (before ++ .close :: later)).next.1 = none) ∧
    (∀ before later, (∀ row, (r.serveAll before).next.1 ≠ some (.ok row)) →
      (r.serveAll (before ++ .next :: later)).next.1 = none) ∧
    ∀ n, (r.serveAll (List.replicate n .next)).next.1 = (expected shape enforceSchema items)[n]? := by
  intro r
  have hstart : Tidy r.cursor := ⟨0, .inl rfl⟩
  refine ⟨fun requests => (hstart.serveAll requests).close, fun before later => ?_,
    fun before later hend => ?_, fun n => ?_⟩
  · have hclosed : ((r.serveAll before).serve .close).isClosed = true := isClosed_close
    exact next_serveAll_of_closed hclosed later
  · have hclosed : ((r.serveAll before).serve .next).isClosed = true := isClosed_next hend
    exact next_serveAll_of_closed hclosed later
  · rw [next_serveAll_replicate, due_opened]

/-- The second document has no value for the column: that fault ends the rows. -/
theorem orderly_missing_column :
    let r := opened [.ok (.field "a" (.int 1)), .ok .empty, .ok (.field "a" (.int 2))]
      (.documents ["a"] none) true "" []
    (∀ row, (r.serveAll [.next]).next.1 ≠ some (.ok row)) ∧
      (r.serveAll [.next, .next]).next.1 = none := by
  intro r
  have hfault : (r.serveAll [.next]).next.1 = some (.error (.migration (.column "a"))) := rfl
  have hend : ∀ row, (r.serveAll [.next]).next.1 ≠ some (.ok row) := by
    intro row hrow
    cases hfault.symm.trans hrow
  exact ⟨hend, (reading_is_orderly _ _ _ _ _).2.2.1 [.next] [] hend⟩

end Rows
end DocSql
