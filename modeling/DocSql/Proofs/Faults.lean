import DocSql.Proofs.Steps
import DocSql.Term.Expression

/-! # The faults of a step

`FaultsIn P x` says that the step `x` stops with faults of a kind only, if it stops.  A sequence of
steps is taken apart by simplification, so that the statement about a function is found by looking at
each of its branches.  The kind that most functions have is `Fault.OfWriting`: terms and conditions
that the document store has no expression for.
-/
namespace DocSql
open List
namespace Compiled

variable {α β : Type} {P Q : Fault → Prop}
variable {x : Compiled α} {k : α → Compiled β}

/-- Every fault that the step can stop with has a property. -/
def FaultsIn (P : Fault → Prop) (x : Compiled α) : Prop := ∀ f, x = .error f → P f

@[simp] theorem faultsIn_ok (a : α) : FaultsIn P (.ok a : Compiled α) := nofun

@[simp] theorem faultsIn_error {f : Fault} : FaultsIn P (.error f : Compiled α) ↔ P f :=
  ⟨fun h => h f rfl, fun h _ hf => by cases hf; exact h⟩

@[simp] theorem faultsIn_undecodable {why : Undecodable} :
    FaultsIn P (undecodable why : Compiled α) ↔ P (.undecodable why) := faultsIn_error

@[simp] theorem faultsIn_unsupported {what : Unsupported} :
    FaultsIn P (unsupported what : Compiled α) ↔ P (.unsupported what) := faultsIn_error

/-- A sequence stops with a fault of its first step or, where that gives a result, of the second. -/
@[simp] theorem faultsIn_bind :
    FaultsIn P (x >>= k) ↔ FaultsIn P x ∧ ∀ a, x = .ok a → FaultsIn P (k a) := by
  cases x with
  | error f => simp
  | ok a => simp

@[simp] theorem faultsIn_map {g : α → β} : FaultsIn P (g <$> x) ↔ FaultsIn P x := by
  cases x with
  | error f => exact faultsIn_error.trans faultsIn_error.symm
  | ok a => exact ⟨fun _ => faultsIn_ok a, fun _ => faultsIn_ok (g a)⟩

/-- A sequence whose first step is one of two stops as any other. -/
theorem faultsIn_ite_bind {c : Prop} [Decidable c] {y : Compiled α} :
    FaultsIn P (if c then x >>= k else y >>= k) ↔
      FaultsIn P (if c then x else y) ∧ ∀ a, (if c then x else y) = .ok a → FaultsIn P (k a) := by
  split
  all_goals exact faultsIn_bind

theorem FaultsIn.bind (hx : FaultsIn P x) (hk : ∀ a, x = .ok a → FaultsIn P (k a)) :
    FaultsIn P (x >>= k) :=
  faultsIn_bind.mpr ⟨hx, hk⟩

/-- A step whose result is only packed up afterwards. -/
theorem FaultsIn.bind_ok {g : α → β} (hx : FaultsIn P x) : FaultsIn P (x >>= fun a => .ok (g a)) :=
  hx.bind fun a _ => faultsIn_ok (g a)

theorem FaultsIn.mono (hx : FaultsIn P x) (h : ∀ f, P f → Q f) : FaultsIn Q x :=
  fun f hf => h f (hx f hf)

theorem faultsIn_mapM {f : α → Compiled β} {xs : List α} (h : ∀ x ∈ xs, FaultsIn P (f x)) :
    FaultsIn P (xs.mapM f) := by
  induction xs with
  | nil => exact faultsIn_ok []
  | cons x xs ih =>
    rw [mapM_cons]
    simp only [faultsIn_bind, Compiled.pure_def, faultsIn_ok, implies_true, and_true]
    exact ⟨h x mem_cons_self, fun _ _ => ih fun y hy => h y (mem_cons_of_mem _ hy)⟩

theorem faultsIn_foldlM {f : β → α → Compiled β} {xs : List α}
    (h : ∀ b, ∀ x ∈ xs, FaultsIn P (f b x)) (b : β) : FaultsIn P (xs.foldlM f b) := by
  induction xs generalizing b with
  | nil => exact faultsIn_ok b
  | cons x xs ih =>
    rw [foldlM_cons, faultsIn_bind]
    exact ⟨h b x mem_cons_self, fun b' _ => ih (fun b y hy => h b y (mem_cons_of_mem _ hy)) b'⟩

end Compiled

open Compiled (FaultsIn)

/-- The faults of writing terms and conditions for the document store. -/
inductive Fault.OfWriting : Fault → Prop
  | aggregate (fn : String) : OfWriting (.undecodable (.aggregateOutsideGroup fn))
  | unsupported (what : Unsupported) : OfWriting (.unsupported what)

attribute [simp] Fault.OfWriting.aggregate Fault.OfWriting.unsupported

theorem Term.faultsIn_likeRegex (t : Term) : FaultsIn Fault.OfWriting t.likeRegex := by
  unfold Term.likeRegex
  split <;> simp

mutual

theorem Term.faultsIn_expression : ∀ t : Term, FaultsIn Fault.OfWriting t.expression
  | .column _ | .field _ | .const _ | .param .. | .countAll | .aggregate .. => by
    simp [Term.expression]
  | .compare l _ r | .arith _ l r => by
    simp [Term.expression, Term.faultsIn_expression l, Term.faultsIn_expression r]
  | .dateTrunc _ arg => by
    simp [Term.expression, Term.faultsIn_expression arg]
  | .caseOf arms => by
    simp [Term.expression, Arms.faultsIn_expression arms]

theorem Arms.faultsIn_expression : ∀ arms : Arms, FaultsIn Fault.OfWriting arms.expression
  | .done => by simp [Arms.expression]
  | .otherwise t => by simp [Arms.expression, Term.faultsIn_expression t]
  | .arm c t rest => by
    simp [Arms.expression, Condition.faultsIn_expression c, Term.faultsIn_expression t,
      Arms.faultsIn_expression rest]

theorem Condition.faultsIn_expression : ∀ c : Condition, FaultsIn Fault.OfWriting c.expression
  | .all cs | .any cs => by simp [Condition.expression, faultsIn_expressions cs]
  | .compare l _ r => by
    simp [Condition.expression, Term.faultsIn_expression l, Term.faultsIn_expression r]
  | .member t m _ => by
    simp [Condition.expression, Term.faultsIn_expression t, Members.faultsIn_expression m]
  | .isNull t _ | .truth t _ => by simp [Condition.expression, Term.faultsIn_expression t]
  | .between t low high _ => by
    simp [Condition.expression, Term.faultsIn_expression t, Term.faultsIn_expression low,
      Term.faultsIn_expression high]
  | .like t p _ _ => by
    simp [Condition.expression, Term.faultsIn_expression t, Term.faultsIn_likeRegex p]

theorem Members.faultsIn_expression : ∀ m : Members, FaultsIn Fault.OfWriting m.expression
  | .list ts => by
    rw [Members.expression]
    split
    · simp
    · simp [faultsIn_termExpressions ts]
  | .nested _ | .subselect _ => by simp [Members.expression]

theorem faultsIn_termExpressions : ∀ ts : List Term, FaultsIn Fault.OfWriting (termExpressions ts)
  | [] => by simp [termExpressions]
  | t :: ts => by
    simp [termExpressions, Term.faultsIn_expression t, faultsIn_termExpressions ts]

theorem faultsIn_expressions : ∀ cs : List Condition, FaultsIn Fault.OfWriting (expressions cs)
  | [] => by simp [expressions]
  | c :: cs => by
    simp [expressions, Condition.faultsIn_expression c, faultsIn_expressions cs]

end

theorem Condition.faultsIn_testFilter (c : Condition) : FaultsIn Fault.OfWriting c.testFilter := by
  have hexpr : FaultsIn Fault.OfWriting c.expressionFilter := by
    simp [Condition.expressionFilter, Condition.faultsIn_expression c]
  unfold Condition.testFilter
  repeat' split
  all_goals simp [hexpr, Term.faultsIn_likeRegex]

mutual

theorem Condition.faultsIn_filter : ∀ c : Condition, FaultsIn Fault.OfWriting c.filter
  | .all cs | .any cs => by simp [Condition.filter, faultsIn_filters cs]
  | .compare .. | .member .. | .isNull .. | .between .. | .like .. | .truth .. => by
    rw [Condition.filter] <;> simp [Condition.faultsIn_testFilter]

theorem faultsIn_filters : ∀ cs : List Condition, FaultsIn Fault.OfWriting (filters cs)
  | [] => by simp [filters]
  | c :: cs => by simp [filters, Condition.faultsIn_filter c, faultsIn_filters cs]

end

theorem Term.faultsIn_projected (t : Term) : FaultsIn Fault.OfWriting t.projected := by
  unfold Term.projected
  split
  · simp
  · exact Term.faultsIn_expression t

end DocSql
