import DocSql.Proofs.Steps
import DocSql.Proofs.StoreMeaning
import DocSql.Term.Expression

/-! # Lowering conditions keeps their meaning

A condition over whole numbers has an ordinary reading: comparisons are those of whole numbers, a
whole number is neither null nor true, and CASE takes the first branch whose condition holds.  The
store is given either of two renderings of the condition, a filter and an expression.  This module
proves that both exist and that the store makes the same of either as the ordinary reading does, in
every document that holds a whole number at each column that is read.
-/
namespace DocSql
open List

variable {document v e : Value} {n : Int} {t : Term} {negated : Bool} {bs : List Bool}
  {field : String}

/-! ### The ordinary reading -/

/-- The whole number at a path of a document. -/
def Value.intAt? (document : Value) (path : String) : Option Int :=
  match Value.walk (segments path) document with
  | some (.int n) => some n
  | _ => none

/-- The comparison of whole numbers. -/
def Comparison.onInts : Comparison → Int → Int → Bool
  | .eq, a, b => a = b
  | .ne, a, b => a ≠ b
  | .lt, a, b => a < b
  | .le, a, b => a ≤ b
  | .gt, a, b => b < a
  | .ge, a, b => b ≤ a

/-- The operation on whole numbers, for those that stay among them. -/
def Arithmetic.onInts? : Arithmetic → Option (Int → Int → Int)
  | .add => some (· + ·)
  | .sub => some (· - ·)
  | .mul => some (· * ·)
  | .div | .mod => none

mutual

/-- The whole number that a term stands for in a document. -/
def Term.number? (document : Value) : Term → Option Int
  | .column c => document.intAt? c.path
  | .const (.int n) => some n
  | .param _ (.int n) => some n
  | .arith op left right => do
    let f ← op.onInts?
    let a ← left.number? document
    let b ← right.number? document
    return f a b
  | .caseOf arms => arms.number? document
  | _ => none

/-- The whole number of the first branch whose condition holds. -/
def Arms.number? (document : Value) : Arms → Option Int
  | .done => none
  | .otherwise t => t.number? document
  | .arm c t rest => do
    let chosen ← c.holds? document
    if chosen then t.number? document else rest.number? document

/-- Whether a condition holds in a document. -/
def Condition.holds? (document : Value) : Condition → Option Bool
  | .all cs => do
    let bs ← holdEach? document cs
    return bs.all id
  | .any cs => do
    let bs ← holdEach? document cs
    return bs.any id
  | .compare lhs op rhs => do
    let a ← lhs.number? document
    let b ← rhs.number? document
    return op.onInts a b
  | .member t (.list ts) negated => do
    let n ← t.number? document
    let ns ← numbers? document ts
    return ns.contains n != negated
  | .isNull t negated => do
    -- a whole number is not null
    let _ ← t.number? document
    return negated
  | .between t low high negated => do
    let n ← t.number? document
    let a ← low.number? document
    let b ← high.number? document
    return (decide (a ≤ n) && decide (n ≤ b)) != negated
  | .truth t negated => do
    -- a whole number is not true
    let _ ← t.number? document
    return negated
  | _ => none

/-- Which of the conditions hold in a document. -/
def holdEach? (document : Value) : List Condition → Option (List Bool)
  | [] => some []
  | c :: cs => do
    let b ← c.holds? document
    let bs ← holdEach? document cs
    return b :: bs

/-- The whole numbers that terms stand for in a document. -/
def numbers? (document : Value) : List Term → Option (List Int)
  | [] => some []
  | t :: ts => do
    let n ← t.number? document
    let ns ← numbers? document ts
    return n :: ns

end

/-! ### Conditions over whole numbers -/

mutual

/-- Whether a term is made of columns, whole constants and parameters, `+ - *`, and CASE with ELSE
over conditions of the same kind. -/
def Term.isWhole : Term → Bool
  | .column c => c.path.toList.head? ≠ some '$'
  | .const (.int _) => true
  | .param _ (.int _) => true
  | .arith op left right => op.onInts?.isSome && left.isWhole && right.isWhole
  | .caseOf arms => arms.isWhole
  | _ => false

/-- Whether all branches are made so, with an ELSE at their end. -/
def Arms.isWhole : Arms → Bool
  | .done => false
  | .otherwise t => t.isWhole
  | .arm c t rest => c.isWhole && t.isWhole && rest.isWhole

/-- Whether a condition is made of tests of such terms. -/
def Condition.isWhole : Condition → Bool
  | .all cs => allWhole cs
  | .any cs => allWhole cs
  | .compare lhs _ rhs => lhs.isWhole && rhs.isWhole
  | .member t (.list ts) _ => t.isWhole && termsWhole ts
  | .isNull t _ => t.isWhole
  | .between t low high _ => t.isWhole && low.isWhole && high.isWhole
  | .truth t _ => t.isWhole
  | _ => false

/-- Whether all conditions are made so. -/
def allWhole : List Condition → Bool
  | [] => true
  | c :: cs => c.isWhole && allWhole cs

/-- Whether all terms are made so. -/
def termsWhole : List Term → Bool
  | [] => true
  | t :: ts => t.isWhole && termsWhole ts

end

mutual

/-- The paths of the columns that a term reads. -/
def Term.columnPaths : Term → List String
  | .column c => [c.path]
  | .compare lhs _ rhs => lhs.columnPaths ++ rhs.columnPaths
  | .aggregate _ _ arg => arg.columnPaths
  | .dateTrunc _ arg => arg.columnPaths
  | .arith _ left right => left.columnPaths ++ right.columnPaths
  | .caseOf arms => arms.columnPaths
  | _ => []

/-- The paths of the columns that branches read. -/
def Arms.columnPaths : Arms → List String
  | .done => []
  | .otherwise t => t.columnPaths
  | .arm c t rest => c.columnPaths ++ t.columnPaths ++ rest.columnPaths

/-- The paths of the columns that a condition reads. -/
def Condition.columnPaths : Condition → List String
  | .all cs => allColumnPaths cs
  | .any cs => allColumnPaths cs
  | .compare lhs _ rhs => lhs.columnPaths ++ rhs.columnPaths
  | .member t m _ => t.columnPaths ++ m.columnPaths
  | .isNull t _ => t.columnPaths
  | .between t low high _ => t.columnPaths ++ low.columnPaths ++ high.columnPaths
  | .like t pattern _ _ => t.columnPaths ++ pattern.columnPaths
  | .truth t _ => t.columnPaths

/-- The paths of the columns that a list of values reads. -/
def Members.columnPaths : Members → List String
  | .list ts => termColumnPaths ts
  | _ => []

/-- The paths of the columns that terms read. -/
def termColumnPaths : List Term → List String
  | [] => []
  | t :: ts => t.columnPaths ++ termColumnPaths ts

/-- The paths of the columns that conditions read. -/
def allColumnPaths : List Condition → List String
  | [] => []
  | c :: cs => c.columnPaths ++ allColumnPaths cs

end

/-! ### Evaluating what is written -/

namespace Meaning

variable {es : List Value}

theorem eval?_path (document : Value) (path : String) :
    eval? document (.path path) = read? document path.toList := by
  simp [Value.path, eval?]

theorem ordered_compare (op : Comparison) (a b : Int) :
    ordered op (compare a b) = op.onInts a b := by
  rcases Int.lt_trichotomy a b with h | h | h
  · have hc : compare a b = .lt := Int.compare_eq_lt.mpr h
    cases op <;> simp [ordered, Comparison.onInts, hc] <;> omega
  · have hc : compare a b = .eq := Int.compare_eq_eq.mpr h
    cases op <;> simp [ordered, Comparison.onInts, hc] <;> omega
  · have hc : compare a b = .gt := Int.compare_eq_gt.mpr h
    cases op <;> simp [ordered, Comparison.onInts, hc] <;> omega

theorem among?_ints (n : Int) (ns : List Int) :
    among? (.int n) (ns.map .int) = some (ns.contains n) := by
  induction ns with
  | nil => rfl
  | cons m ns ih =>
    have heq : (compare n m).isEq = decide (n = m) := ordered_compare .eq n m
    simp [among?, ih, order?, rank, heq]

/-- The value of an operator with two operands. -/
theorem eval?_binary {name : String} (hname : name ≠ "$literal") {lhs rhs a b : Value}
    (hl : eval? document lhs = some a) (hr : eval? document rhs = some b) :
    eval? document (binary name lhs rhs) = applied? name [a, b] := by
  simp [binary, Value.field, eval?, evalItems?, hname, hl, hr]

theorem applied?_comparison (op : Comparison) (a b : Int) :
    applied? op.operator [.int a, .int b] = some (.bool (op.onInts a b)) := by
  rw [← ordered_compare]
  cases op <;> rfl

theorem applied?_arithmetic {op : Arithmetic} {f : Int → Int → Int} (hf : op.onInts? = some f)
    (a b : Int) : applied? op.operator [.int a, .int b] = some (.int (f a b)) := by
  cases op <;> cases hf <;> rfl

theorem eval?_notExpression {b : Bool} (h : eval? document e = some (.bool b)) :
    eval? document (notExpression negated e) = some (.bool (b != negated)) := by
  cases negated with
  | false => simp [notExpression, h]
  | true => simp [notExpression, Value.field, eval?, evalItems?, h, applied?]

theorem truths?_bools (bs : List Bool) : truths? (bs.map .bool) = some bs := by
  induction bs with
  | nil => rfl
  | cons b bs ih =>
    unfold truths? at ih ⊢
    simp [ih]

theorem eval?_and (h : evalItems? document es = some (bs.map .bool)) :
    eval? document (.field "$and" (.array es)) = some (.bool (bs.all id)) := by
  simp [Value.field, eval?, h, applied?, truths?_bools]

theorem eval?_or (h : evalItems? document es = some (bs.map .bool)) :
    eval? document (.field "$or" (.array es)) = some (.bool (bs.any id)) := by
  simp [Value.field, eval?, h, applied?, truths?_bools]

theorem eval?_in {ns : List Int} (he : eval? document e = some (.int n))
    (hes : evalItems? document es = some (ns.map .int)) :
    eval? document (binary "$in" e (.array es)) = some (.bool (ns.contains n)) := by
  have hlist : eval? document (.array es) = some (.array (ns.map .int)) := by
    simp [eval?, hes]
  rw [eval?_binary (by decide) he hlist]
  simp [applied?, appliedBinary?, comparison?, arithmetic?, among?_ints]

theorem eval?_cond {test yes no : Value} {b : Bool} (htest : eval? document test = some (.bool b))
    (hchosen : eval? document (if b then yes else no) = some v) :
    eval? document (.field "$cond" (.object [("if", test), ("then", yes), ("else", no)])) =
      some v := by
  cases b with
  | true | false => simpa [Value.field, eval?, htest] using hchosen

theorem evalItems?_literals (document : Value) (ns : List Int) :
    evalItems? document ((ns.map Value.int).map literal) = some (ns.map .int) := by
  induction ns with
  | nil => rfl
  | cons n ns ih =>
    rw [map_cons, map_cons, evalItems?, ih]
    rfl

theorem eval?_range {low high : Value} {a b : Int} (he : eval? document e = some (.int n))
    (hlow : eval? document low = some (.int a)) (hhigh : eval? document high = some (.int b)) :
    eval? document (.field "$and" (.array [binary "$gte" e low, binary "$lte" e high])) =
      some (.bool (decide (a ≤ n) && decide (n ≤ b))) := by
  have habove : eval? document (binary "$gte" e low) = some (.bool (decide (a ≤ n))) :=
    (eval?_binary (by decide) he hlow).trans (applied?_comparison .ge n a)
  have hbelow : eval? document (binary "$lte" e high) = some (.bool (decide (n ≤ b))) :=
    (eval?_binary (by decide) he hhigh).trans (applied?_comparison .le n b)
  have hboth : evalItems? document [binary "$gte" e low, binary "$lte" e high] =
      some ([decide (a ≤ n), decide (n ≤ b)].map .bool) := by
    simp [evalItems?, habove, hbelow]
  simpa using eval?_and hboth

theorem eval?_isNull (he : eval? document e = some (.int n)) (negated : Bool) :
    eval? document (binary (if negated then "$gt" else "$lte") e .null) = some (.bool negated) := by
  have hnull : eval? document .null = some .null := rfl
  cases negated <;> exact eval?_binary (by decide) he hnull

theorem eval?_truth (he : eval? document e = some (.int n)) (negated : Bool) :
    eval? document (binary (if negated then "$ne" else "$eq") e (.bool true)) =
      some (.bool negated) := by
  have htrue : eval? document (.bool true) = some (.bool true) := rfl
  cases negated <;> exact eval?_binary (by decide) he htrue

end Meaning

/-- A document holds a whole number at each of the paths. -/
def Value.HoldsInts (document : Value) (paths : List String) : Prop :=
  ∀ path ∈ paths, ∃ n, document.intAt? path = some n

theorem Value.holdsInts_append {a b : List String} :
    document.HoldsInts (a ++ b) ↔ document.HoldsInts a ∧ document.HoldsInts b := by
  simp [Value.HoldsInts, or_imp, forall_and]

theorem Value.walk_of_intAt {path : String} (h : document.intAt? path = some n) :
    Value.walk (segments path) document = some (.int n) := by
  unfold Value.intAt? at h
  split at h
  · rename_i m hm
    cases h
    exact hm
  · cases h

theorem Value.read_of_intAt {path : String} (h : document.intAt? path = some n) :
    Meaning.read? document path.toList = some (.int n) := by
  simpa [Meaning.read?] using Value.walk_of_intAt h

/-- A whole term that is a constant is a whole number, in every document. -/
theorem Term.number_of_constant (hw : t.isWhole = true) (hv : t.constant? = some v) :
    ∃ n, v = .int n ∧ ∀ document, t.number? document = some n := by
  cases t with
  | const w | param i w => cases w <;> simp_all [Term.isWhole, Term.constant?, Term.number?]
  | _ => cases hv

/-- A list of whole terms that are constants is a list of whole numbers. -/
theorem numbers_of_constants : ∀ {ts : List Term}, termsWhole ts = true →
    ∀ {values : List Value}, constants? ts = some values →
    ∃ ns : List Int, values = ns.map .int ∧ ∀ document, numbers? document ts = some ns
  | [], _, _, hc => by
    cases hc
    exact ⟨[], rfl, fun _ => rfl⟩
  | t :: ts, hw, values, hc => by
    simp only [termsWhole, Bool.and_eq_true] at hw
    -- a whole parameter is not bound to a list
    have hone : constants? (t :: ts) = (do
        let v ← t.constant?
        let rest ← constants? ts
        return v :: rest) := by
      rw [constants?]
      · cases t.constant? <;> rfl
      · rintro i items rfl
        exact absurd hw.1 (by simp [Term.isWhole])
    rw [hone] at hc
    simp only [Option.bind_eq_bind, Option.bind_eq_some_iff] at hc
    obtain ⟨v, hv, rest, hrest, heq⟩ := hc
    cases heq
    obtain ⟨n, rfl, hn⟩ := Term.number_of_constant hw.1 hv
    obtain ⟨ns, rfl, hns⟩ := numbers_of_constants hw.2 hrest
    exact ⟨n :: ns, rfl, fun document => by simp [numbers?, hn, hns]⟩

open Meaning

section

variable (document)

mutual

/-- The expression of a term has the value that the term stands for. -/
theorem Term.eval_expression : ∀ t : Term, t.isWhole = true →
    document.HoldsInts t.columnPaths →
    ∃ n e, t.number? document = some n ∧ t.expression = .ok e ∧ eval? document e = some (.int n)
  | .column c, _, hd => by
    obtain ⟨n, hn⟩ := hd c.path (mem_singleton.mpr rfl)
    exact ⟨n, _, hn, rfl, (eval?_path document c.path).trans (Value.read_of_intAt hn)⟩
  | .const (.int n), _, _ => ⟨n, _, rfl, rfl, rfl⟩
  | .param _ (.int n), _, _ => ⟨n, _, rfl, rfl, rfl⟩
  | .arith op left right, hw, hd => by
    simp only [Term.isWhole, Bool.and_eq_true, Option.isSome_iff_exists] at hw
    obtain ⟨⟨⟨f, hf⟩, hwl⟩, hwr⟩ := hw
    obtain ⟨hdl, hdr⟩ := Value.holdsInts_append.mp hd
    obtain ⟨a, l, hna, hel, hal⟩ := Term.eval_expression left hwl hdl
    obtain ⟨b, r, hnb, her, hbr⟩ := Term.eval_expression right hwr hdr
    refine ⟨f a b, binary op.operator l r, ?_, ?_, ?_⟩
    · simp [Term.number?, hf, hna, hnb]
    · simp [Term.expression, hel, her]
    · rw [eval?_binary (Arithmetic.operator_ne_literal op) hal hbr, applied?_arithmetic hf]
  | .caseOf arms, hw, hd => by
    obtain ⟨n, e, hn, he, hv⟩ := Arms.eval_expression arms hw hd
    exact ⟨n, e, hn, he, hv⟩

/-- The expression of branches has the value of the first branch whose condition holds. -/
theorem Arms.eval_expression : ∀ arms : Arms, arms.isWhole = true →
    document.HoldsInts arms.columnPaths →
    ∃ n e, arms.number? document = some n ∧ arms.expression = .ok e ∧
      eval? document e = some (.int n)
  | .otherwise t, hw, hd => Term.eval_expression t hw hd
  | .arm c t rest, hw, hd => by
    simp only [Arms.isWhole, Bool.and_eq_true] at hw
    obtain ⟨⟨hwc, hwt⟩, hwr⟩ := hw
    simp only [Arms.columnPaths, Value.holdsInts_append] at hd
    obtain ⟨⟨hdc, hdt⟩, hdr⟩ := hd
    obtain ⟨b, test, hb, htest, hbv⟩ := Condition.eval_expression c hwc hdc
    obtain ⟨n, yes, hn, hyes, hnv⟩ := Term.eval_expression t hwt hdt
    obtain ⟨m, no, hm, hno, hmv⟩ := Arms.eval_expression rest hwr hdr
    refine ⟨if b then n else m,
      .field "$cond" (.object [("if", test), ("then", yes), ("else", no)]), ?_, ?_, ?_⟩
    · cases b <;> simp [Arms.number?, hb, hn, hm]
    · simp [Arms.expression, htest, hyes, hno]
    · refine eval?_cond hbv ?_
      cases b with
      | true => exact hnv
      | false => exact hmv

/-- The expression of a condition is true exactly if the condition holds. -/
theorem Condition.eval_expression : ∀ c : Condition, c.isWhole = true →
    document.HoldsInts c.columnPaths →
    ∃ b e, c.holds? document = some b ∧ c.expression = .ok e ∧ eval? document e = some (.bool b)
  | .all cs, hw, hd => by
    obtain ⟨bs, es, hbs, hes, hv⟩ := evalItems_expressions cs hw hd
    exact ⟨bs.all id, .field "$and" (.array es), by simp [Condition.holds?, hbs],
      by simp [Condition.expression, hes], eval?_and hv⟩
  | .any cs, hw, hd => by
    obtain ⟨bs, es, hbs, hes, hv⟩ := evalItems_expressions cs hw hd
    exact ⟨bs.any id, .field "$or" (.array es), by simp [Condition.holds?, hbs],
      by simp [Condition.expression, hes], eval?_or hv⟩
  | .compare lhs op rhs, hw, hd => by
    simp only [Condition.isWhole, Bool.and_eq_true] at hw
    obtain ⟨hdl, hdr⟩ := Value.holdsInts_append.mp hd
    obtain ⟨a, l, hna, hel, hal⟩ := Term.eval_expression lhs hw.1 hdl
    obtain ⟨b, r, hnb, her, hbr⟩ := Term.eval_expression rhs hw.2 hdr
    refine ⟨op.onInts a b, binary op.operator l r, by simp [Condition.holds?, hna, hnb],
      by simp [Condition.expression, hel, her], ?_⟩
    rw [eval?_binary op.operator_ne_literal hal hbr, applied?_comparison]
  | .member t (.list ts) negated, hw, hd => by
    simp only [Condition.isWhole, Bool.and_eq_true] at hw
    obtain ⟨hdt, hds⟩ := Value.holdsInts_append.mp hd
    obtain ⟨n, e, hn, he, hnv⟩ := Term.eval_expression t hw.1 hdt
    obtain ⟨ns, es, hns, hes, hv⟩ : ∃ ns es, numbers? document ts = some ns ∧
        (Members.list ts).expression = .ok (.array es) ∧
        evalItems? document es = some (ns.map .int) := by
      -- a list of constants is written value by value, any other term by term
      cases hc : constants? ts with
      | some values =>
        obtain ⟨ns, rfl, hns⟩ := numbers_of_constants hw.2 hc
        exact ⟨ns, _, hns document, by simp only [Members.expression, hc],
          evalItems?_literals document ns⟩
      | none =>
        obtain ⟨ns, es, hns, hes, hv⟩ := evalItems_termExpressions ts hw.2 hds
        exact ⟨ns, es, hns, by simp [Members.expression, hc, hes], hv⟩
    exact ⟨ns.contains n != negated, notExpression negated (binary "$in" e (.array es)),
      by simp [Condition.holds?, hn, hns], by simp [Condition.expression, he, hes],
      eval?_notExpression (eval?_in hnv hv)⟩
  | .isNull t negated, hw, hd => by
    obtain ⟨n, e, hn, he, hnv⟩ := Term.eval_expression t hw hd
    exact ⟨negated, _, by simp [Condition.holds?, hn], by simp only [Condition.expression, he]; rfl,
      eval?_isNull hnv negated⟩
  | .between t low high negated, hw, hd => by
    simp only [Condition.isWhole, Bool.and_eq_true] at hw
    simp only [Condition.columnPaths, Value.holdsInts_append] at hd
    obtain ⟨n, e, hn, he, hnv⟩ := Term.eval_expression t hw.1.1 hd.1.1
    obtain ⟨a, l, ha, hl, hav⟩ := Term.eval_expression low hw.1.2 hd.1.2
    obtain ⟨b, h, hb, hh, hbv⟩ := Term.eval_expression high hw.2 hd.2
    refine ⟨(decide (a ≤ n) && decide (n ≤ b)) != negated, _, ?_, ?_,
      eval?_notExpression (eval?_range hnv hav hbv)⟩
    · simp [Condition.holds?, hn, ha, hb]
    · simp [Condition.expression, he, hl, hh]
  | .truth t negated, hw, hd => by
    obtain ⟨n, e, hn, he, hnv⟩ := Term.eval_expression t hw hd
    exact ⟨negated, _, by simp [Condition.holds?, hn], by simp only [Condition.expression, he]; rfl,
      eval?_truth hnv negated⟩

/-- The expressions of conditions are true exactly where the conditions hold. -/
theorem evalItems_expressions : ∀ cs : List Condition, allWhole cs = true →
    document.HoldsInts (allColumnPaths cs) →
    ∃ bs es, holdEach? document cs = some bs ∧ expressions cs = .ok es ∧
      evalItems? document es = some (bs.map .bool)
  | [], _, _ => ⟨[], [], rfl, rfl, rfl⟩
  | c :: cs, hw, hd => by
    simp only [allWhole, Bool.and_eq_true] at hw
    obtain ⟨hdc, hds⟩ := Value.holdsInts_append.mp hd
    obtain ⟨b, e, hb, he, hv⟩ := Condition.eval_expression c hw.1 hdc
    obtain ⟨bs, es, hbs, hes, hvs⟩ := evalItems_expressions cs hw.2 hds
    exact ⟨b :: bs, e :: es, by simp [holdEach?, hb, hbs], by simp [expressions, he, hes],
      by simp [evalItems?, hv, hvs]⟩

/-- The expressions of terms have the values that the terms stand for. -/
theorem evalItems_termExpressions : ∀ ts : List Term, termsWhole ts = true →
    document.HoldsInts (termColumnPaths ts) →
    ∃ ns es, numbers? document ts = some ns ∧ termExpressions ts = .ok es ∧
      evalItems? document es = some (ns.map .int)
  | [], _, _ => ⟨[], [], rfl, rfl, rfl⟩
  | t :: ts, hw, hd => by
    simp only [termsWhole, Bool.and_eq_true] at hw
    obtain ⟨hdt, hds⟩ := Value.holdsInts_append.mp hd
    obtain ⟨n, e, hn, he, hv⟩ := Term.eval_expression t hw.1 hdt
    obtain ⟨ns, es, hns, hes, hvs⟩ := evalItems_termExpressions ts hw.2 hds
    exact ⟨n :: ns, e :: es, by simp [numbers?, hn, hns], by simp [termExpressions, he, hes],
      by simp [evalItems?, hv, hvs]⟩

end

end

/-! ### Accepting what is written -/

theorem Comparison.onInts_swap (op : Comparison) (a b : Int) :
    op.swap.onInts b a = op.onInts a b := by
  cases op <;> simp [Comparison.swap, Comparison.onInts, eq_comm]

namespace Meaning

theorem accepts?_field (hfield : field.toList.head? ≠ some '$')
    (hv : read? document field.toList = some v) (tests : List (String × Value)) :
    accepts? document (.field field (.object tests)) = passes? v tests := by
  simp [Value.field, accepts?, acceptsFields?, hfield, hv]

theorem accepts?_expr {b : Bool} (h : eval? document e = some (.bool b)) :
    accepts? document (.field "$expr" e) = some b := by
  simp [Value.field, accepts?, acceptsFields?, h]

theorem accepts?_and {fs : List Value} (h : acceptsItems? document fs = some bs) :
    accepts? document (.field "$and" (.array fs)) = some (bs.all id) := by
  simp [Value.field, accepts?, acceptsFields?, h]

theorem accepts?_or {fs : List Value} (h : acceptsItems? document fs = some bs) :
    accepts? document (.field "$or" (.array fs)) = some (bs.any id) := by
  simp [Value.field, accepts?, acceptsFields?, h]

theorem passesOne?_comparison (op : Comparison) (n m : Int) :
    passesOne? (.int n) op.operator (.int m) = some (op.onInts n m) := by
  rw [← ordered_compare]
  cases op <;> rfl

theorem passes?_singleton (v : Value) (name : String) (operand : Value) :
    passes? v [(name, operand)] = passesOne? v name operand := by
  simp [passes?]

theorem passes?_range (n a b : Int) : passes? (.int n) [("$gte", .int a), ("$lte", .int b)] =
      some (decide (a ≤ n) && decide (n ≤ b)) := by
  have habove := passesOne?_comparison .ge n a
  have hbelow := passesOne?_comparison .le n b
  simp only [Comparison.operator] at habove hbelow
  simp [passes?, habove, hbelow, Comparison.onInts]

end Meaning

theorem Term.read_of_fieldPath (hw : t.isWhole = true) (hd : document.HoldsInts t.columnPaths)
    (hf : t.fieldPath? = some field) : field.toList.head? ≠ some '$' ∧
      ∃ n, t.number? document = some n ∧ read? document field.toList = some (.int n) := by
  cases t with
  | column c =>
    cases hf
    obtain ⟨n, hn⟩ := hd c.path (mem_singleton.mpr rfl)
    exact ⟨of_decide_eq_true hw, n, hn, Value.read_of_intAt hn⟩
  | field name => cases hw
  | _ => cases hf

/-- What the store makes of the filter that tests the expression of a condition. -/
theorem Condition.accepts_expressionFilter {c : Condition} (hw : c.isWhole = true)
    (hd : document.HoldsInts c.columnPaths) : ∃ b q, c.holds? document = some b ∧
      c.expressionFilter = .ok q ∧ accepts? document q = some b := by
  obtain ⟨b, e, hb, he, hv⟩ := Condition.eval_expression document c hw hd
  exact ⟨b, .field "$expr" e, hb, by simp [Condition.expressionFilter, he], accepts?_expr hv⟩

/-- A field compared with a constant. -/
theorem Term.accepts_compareField {u : Term} (hwt : t.isWhole = true) (hwu : u.isWhole = true)
    (hdt : document.HoldsInts t.columnPaths) (hf : t.fieldPath? = some field)
    (hv : u.constant? = some v) (op : Comparison) :
    ∃ n m, t.number? document = some n ∧ u.number? document = some m ∧
      accepts? document (compareField field op v) = some (op.onInts n m) := by
  obtain ⟨hfield, n, hn, hread⟩ := Term.read_of_fieldPath hwt hdt hf
  obtain ⟨m, rfl, hm⟩ := Term.number_of_constant hwu hv
  refine ⟨n, m, hn, hm document, ?_⟩
  rw [compareField]
  · exact (accepts?_field hfield hread _).trans
      ((passes?_singleton _ _ _).trans (passesOne?_comparison op n m))
  · rintro sub inner hobject
    cases hobject

/-- The filter of a test, if the test is a whole one, accepts the document exactly if it holds. -/
def Condition.Tested (document : Value) (c : Condition) : Prop :=
  c.isWhole = true → document.HoldsInts c.columnPaths →
    ∃ b q, c.holds? document = some b ∧ c.testFilter = .ok q ∧ accepts? document q = some b

theorem Condition.tested_compare (lhs : Term) (op : Comparison) (rhs : Term) :
    Tested document (.compare lhs op rhs) := by
  intro hw hd
  have hww := hw
  simp only [Condition.isWhole, Bool.and_eq_true] at hww
  obtain ⟨hdl, hdr⟩ := Value.holdsInts_append.mp hd
  rw [Condition.testFilter]
  split
  · rename_i field v hf hv
    obtain ⟨n, m, hn, hm, hacc⟩ := Term.accepts_compareField hww.1 hww.2 hdl hf hv op
    exact ⟨op.onInts n m, _, by simp [Condition.holds?, hn, hm], rfl, hacc⟩
  · rename_i field v hf hv _
    obtain ⟨n, m, hn, hm, hacc⟩ := Term.accepts_compareField hww.2 hww.1 hdr hf hv op.swap
    rw [op.onInts_swap] at hacc
    exact ⟨op.onInts m n, _, by simp [Condition.holds?, hn, hm], rfl, hacc⟩
  · exact Condition.accepts_expressionFilter hw hd

theorem Condition.tested_member (t : Term) (ts : List Term) (negated : Bool) :
    Tested document (.member t (.list ts) negated) := by
  intro hw hd
  have hww := hw
  simp only [Condition.isWhole, Bool.and_eq_true] at hww
  obtain ⟨hdt, -⟩ := Value.holdsInts_append.mp hd
  rw [Condition.testFilter]
  split
  · rename_i field values hf hc
    obtain ⟨hfield, n, hn, hread⟩ := Term.read_of_fieldPath hww.1 hdt hf
    obtain ⟨ns, rfl, hns⟩ := numbers_of_constants hww.2 hc
    refine ⟨ns.contains n != negated, _, by simp [Condition.holds?, hn, hns], rfl, ?_⟩
    refine (accepts?_field hfield hread _).trans ((passes?_singleton _ _ _).trans ?_)
    cases negated <;> simp [passesOne?, among?_ints]
  · exact Condition.accepts_expressionFilter hw hd

/-- A field that holds a number, tested against a value that no number equals. -/
theorem Term.accepts_unequal (hw : t.isWhole = true) (hd : document.HoldsInts t.columnPaths)
    (hf : t.fieldPath? = some field) (v : Value) (hv : ∀ n : Int, passesOne? (.int n) "$eq" v = some false ∧
      passesOne? (.int n) "$ne" v = some true) (negated : Bool) : ∃ n, t.number? document = some n ∧
      accepts? document (.field field (.field (if negated then "$ne" else "$eq") v)) =
        some negated := by
  obtain ⟨hfield, n, hn, hread⟩ := Term.read_of_fieldPath hw hd hf
  refine ⟨n, hn, (accepts?_field hfield hread _).trans ((passes?_singleton _ _ _).trans ?_)⟩
  cases negated with
  | false => exact (hv n).1
  | true => exact (hv n).2

theorem Condition.tested_isNull (t : Term) (negated : Bool) :
    Tested document (.isNull t negated) := by
  intro hw hd
  rw [Condition.testFilter]
  split
  · rename_i field hf
    obtain ⟨n, hn, haccepts⟩ := Term.accepts_unequal hw hd hf .null (fun _ => ⟨rfl, rfl⟩) negated
    exact ⟨negated, _, by simp [Condition.holds?, hn], rfl, haccepts⟩
  · exact Condition.accepts_expressionFilter hw hd

theorem Condition.tested_truth (t : Term) (negated : Bool) :
    Tested document (.truth t negated) := by
  intro hw hd
  rw [Condition.testFilter]
  split
  · rename_i field hf
    obtain ⟨n, hn, haccepts⟩ :=
      Term.accepts_unequal hw hd hf (.bool true) (fun _ => ⟨rfl, rfl⟩) negated
    exact ⟨negated, _, by simp [Condition.holds?, hn], rfl, haccepts⟩
  · exact Condition.accepts_expressionFilter hw hd

theorem Condition.tested_between (t low high : Term) (negated : Bool) :
    Tested document (.between t low high negated) := by
  intro hw hd
  have hww := hw
  simp only [Condition.isWhole, Bool.and_eq_true] at hww
  have hdt := (Value.holdsInts_append.mp (Value.holdsInts_append.mp hd).1).1
  rw [Condition.testFilter]
  split
  · rename_i field l h hf hl hh
    obtain ⟨hfield, n, hn, hread⟩ := Term.read_of_fieldPath hww.1.1 hdt hf
    obtain ⟨a, rfl, ha⟩ := Term.number_of_constant hww.1.2 hl
    obtain ⟨b, rfl, hb⟩ := Term.number_of_constant hww.2 hh
    refine ⟨(decide (a ≤ n) && decide (n ≤ b)) != negated, _,
      by simp [Condition.holds?, hn, ha, hb], rfl, ?_⟩
    cases negated with
    | false =>
      refine (accepts?_field hfield hread _).trans ?_
      simp [passes?_range]
    | true =>
      refine (accepts?_field hfield hread _).trans ((passes?_singleton _ _ _).trans ?_)
      simp [passesOne?, passes?_range]
  · exact Condition.accepts_expressionFilter hw hd

section

variable (document)

mutual

/-- The filter of a condition accepts a document exactly if the condition holds in it. -/
theorem Condition.accepts_filter : ∀ c : Condition, c.isWhole = true →
    document.HoldsInts c.columnPaths →
    ∃ b q, c.holds? document = some b ∧ c.filter = .ok q ∧ accepts? document q = some b
  | .all cs, hw, hd => by
    obtain ⟨bs, qs, hbs, hqs, hv⟩ := acceptsItems_filters cs hw hd
    exact ⟨bs.all id, .field "$and" (.array qs), by simp [Condition.holds?, hbs],
      by simp [Condition.filter, hqs], accepts?_and hv⟩
  | .any cs, hw, hd => by
    obtain ⟨bs, qs, hbs, hqs, hv⟩ := acceptsItems_filters cs hw hd
    exact ⟨bs.any id, .field "$or" (.array qs), by simp [Condition.holds?, hbs],
      by simp [Condition.filter, hqs], accepts?_or hv⟩
  | .compare lhs op rhs, hw, hd => Condition.tested_compare lhs op rhs hw hd
  | .member t (.list ts) n, hw, hd => Condition.tested_member t ts n hw hd
  | .isNull t n, hw, hd => Condition.tested_isNull t n hw hd
  | .between t low high n, hw, hd => Condition.tested_between t low high n hw hd
  | .truth t n, hw, hd => Condition.tested_truth t n hw hd

/-- The filters of conditions accept a document exactly where the conditions hold. -/
theorem acceptsItems_filters : ∀ cs : List Condition, allWhole cs = true →
    document.HoldsInts (allColumnPaths cs) →
    ∃ bs qs, holdEach? document cs = some bs ∧ filters cs = .ok qs ∧
      acceptsItems? document qs = some bs
  | [], _, _ => ⟨[], [], rfl, rfl, rfl⟩
  | c :: cs, hw, hd => by
    simp only [allWhole, Bool.and_eq_true] at hw
    obtain ⟨hdc, hds⟩ := Value.holdsInts_append.mp hd
    obtain ⟨b, q, hb, hq, hv⟩ := Condition.accepts_filter c hw.1 hdc
    obtain ⟨bs, qs, hbs, hqs, hvs⟩ := acceptsItems_filters cs hw.2 hds
    exact ⟨b :: bs, q :: qs, by simp [holdEach?, hb, hbs], by simp [filters, hq, hqs],
      by simp [acceptsItems?, hv, hvs]⟩

end

end

/-- **Lowering keeps the meaning of conditions.**  In a document that holds a whole number at every
column that a whole condition reads, the condition is true or false.  It has both a filter and an
expression, the store accepts the document by the filter exactly if the condition holds, and the
expression has the truth value of the condition. -/
theorem Condition.lowering_keeps_meaning (c : Condition) (document : Value)
    (hwhole : c.isWhole = true)
    (hcolumns : ∀ path ∈ c.columnPaths, ∃ n, document.intAt? path = some n) :
    ∃ b q e, c.holds? document = some b ∧ c.filter = .ok q ∧ c.expression = .ok e ∧
      accepts? document q = some b ∧ eval? document e = some (.bool b) := by
  obtain ⟨b, q, hb, hq, haccepts⟩ := Condition.accepts_filter document c hwhole hcolumns
  obtain ⟨b', e, hb', he, heval⟩ := Condition.eval_expression document c hwhole hcolumns
  -- the ordinary reading is one function, so both renderings are compared with one truth value
  obtain rfl : b = b' := Option.some.inj (hb.symm.trans hb')
  exact ⟨b, q, e, hb, hq, he, haccepts, heval⟩

/-- A constant before a column, a column in a list of columns, a range, and a CASE term whose first
condition fails: the condition holds, and so say both of its renderings. -/
theorem Condition.lowering_keeps_meaning_mixed :
    let a := Term.column ⟨"r", "a", "a"⟩
    let b := Term.column ⟨"t", "b", "t.b"⟩
    let c := Condition.all [
      .any [.compare (.const (.int 9)) .lt a, .member b (.list [a, .const (.int 7)]) false],
      .between b (.param 0 (.int 1)) (.arith .mul a (.const (.int 2))) false,
      .compare (.caseOf (.arm (.isNull a false) b (.otherwise (.arith .sub b a)))) .ne b,
      .truth a true]
    let document := Value.object [("a", .int 5), ("t", .object [("b", .int 7)])]
    c.isWhole = true ∧ c.columnPaths ≠ [] ∧
      (∀ path ∈ c.columnPaths, ∃ n, document.intAt? path = some n) ∧
      ∃ q e, c.filter = .ok q ∧ c.expression = .ok e ∧
        accepts? document q = some true ∧ eval? document e = some (.bool true) := by
  intro a b c document
  have hwhole : c.isWhole = true := rfl
  have ha : document.intAt? "a" = some 5 := by decide +kernel
  have hb : document.intAt? "t.b" = some 7 := by decide +kernel
  have hcolumns : ∀ path ∈ c.columnPaths, ∃ n, document.intAt? path = some n := by
    simp [c, a, b, Condition.columnPaths, allColumnPaths, Members.columnPaths, termColumnPaths,
      Term.columnPaths, Arms.columnPaths, ha, hb]
  have hholds : c.holds? document = some true := by
    simp [c, a, b, Condition.holds?, holdEach?, numbers?, Term.number?, Arms.number?, ha, hb,
      Comparison.onInts, Arithmetic.onInts?]
  obtain ⟨truth, q, e, htruth, hq, he, haccepts, heval⟩ :=
    Condition.lowering_keeps_meaning c document hwhole hcolumns
  obtain rfl : truth = true := Option.some.inj (htruth.symm.trans hholds)
  exact ⟨hwhole, List.cons_ne_nil _ _, hcolumns, q, e, hq, he, haccepts, heval⟩

end DocSql
