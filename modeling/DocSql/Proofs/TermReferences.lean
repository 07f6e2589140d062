import DocSql.Proofs.ExactNegation
import DocSql.Proofs.ListMembers
import DocSql.Proofs.PathReads
import DocSql.Proofs.Sameness

/-! # What terms refer to

The expression of a term reads paths.  A path stands there for one of three reasons: a column of a
table has it, a stage is to make a field of that name, or a text inside a constant document or array
starts with `$`.  `Term.references` tells them apart, and the expression reads exactly the paths of
the references.  Equal terms refer to the same fields, and negating or joining conditions keeps what
they refer to.
-/
namespace DocSql
open Compiled List

/-! ### References -/

/-- What a path in an expression stands for. -/
inductive Reference where
  /-- A column of a table. -/
  | column (c : Column)
  /-- A field that a stage makes, such as an alias. -/
  | field (name : String)
  /-- A text inside a constant that is taken for a path. -/
  | text (path : String)
  deriving DecidableEq

/-- The path that is read. -/
def Reference.path : Reference → String
  | .column c => c.path
  | .field name => name
  | .text path => path

mutual

/-- What a term refers to, inside the arguments of its calls as well. -/
def Term.references : Term → List Reference
  | .column c => [.column c]
  | .field name => [.field name]
  | .const v => (exprReads (literal v)).map .text
  | .param _ v => (exprReads (literal v)).map .text
  | .countAll => []
  | .compare l _ r => l.references ++ r.references
  | .arith _ l r => l.references ++ r.references
  | .aggregate _ _ arg => arg.references
  | .dateTrunc _ arg => arg.references
  | .caseOf arms => arms.references

/-- What branches refer to. -/
def Arms.references : Arms → List Reference
  | .done => []
  | .otherwise t => t.references
  | .arm c t rest => c.references ++ t.references ++ rest.references

/-- What a condition refers to. -/
def Condition.references : Condition → List Reference
  | .all cs => conditionReferences cs
  | .any cs => conditionReferences cs
  | .compare l _ r => l.references ++ r.references
  | .member t m _ => t.references ++ m.references
  | .isNull t _ => t.references
  | .between t low high _ => t.references ++ low.references ++ high.references
  | .like t p _ _ => t.references ++ p.references
  | .truth t _ => t.references

/-- What the place that a term is looked for in refers to. -/
def Members.references : Members → List Reference
  | .list ts =>
    match constants? ts with
    | some values => (itemReads (values.map literal)).map .text
    | none => termReferences ts
  | .nested name => [.field name]
  | .subselect _ => []

/-- What terms refer to. -/
def termReferences : List Term → List Reference
  | [] => []
  | t :: ts => t.references ++ termReferences ts

/-- What conditions refer to. -/
def conditionReferences : List Condition → List Reference
  | [] => []
  | c :: cs => c.references ++ conditionReferences cs

end

theorem mem_termReferences {ts : List Term} {ref : Reference} :
    ref ∈ termReferences ts ↔ ∃ t ∈ ts, ref ∈ t.references := by
  induction ts with
  | nil => simp [termReferences]
  | cons t ts ih => simp [termReferences, ih]

theorem conditionReferences_append (cs cs' : List Condition) :
    conditionReferences (cs ++ cs') = conditionReferences cs ++ conditionReferences cs' := by
  induction cs with
  | nil => rfl
  | cons c cs ih => simp [conditionReferences, ih]

/-- A constant refers to texts only. -/
theorem Term.references_of_constant {t : Term} {v : Value} (h : t.constant? = some v) :
    t.references = (exprReads (literal v)).map .text := by
  cases t with
  | const w =>
    cases h
    rfl
  | param i w =>
    cases h
    rfl
  | _ => cases h

theorem field_not_mem_of_constants {ts : List Term} {values : List Value}
    (h : constants? ts = some values) (name : String) : .field name ∉ termReferences ts := by
  obtain ⟨hconstant, -⟩ := constants?_eq_some_iff.mp h
  clear h
  induction ts with
  | nil => exact not_mem_nil
  | cons t ts ih =>
    obtain ⟨hfirst, hrest⟩ := forall_mem_cons.mp hconstant
    obtain ⟨value, hvalue⟩ := Option.isSome_iff_exists.mp hfirst
    rw [termReferences, mem_append, not_or]
    exact ⟨by simp [Term.references_of_constant hvalue], ih hrest⟩

/-- As far as fields go, a list of values refers to what its members refer to. -/
theorem Members.field_mem_list {ts : List Term} {name : String} :
    .field name ∈ (Members.list ts).references ↔ .field name ∈ termReferences ts := by
  rw [Members.references]
  cases hc : constants? ts with
  | none => rfl
  | some values => simp [field_not_mem_of_constants hc name]

/-! ### The paths that are read -/

section

variable {p : String}

/-- The paths that references stand for. -/
def Reads (refs : List Reference) (p : String) : Prop := ∃ ref ∈ refs, ref.path = p

@[simp] theorem reads_nil : ¬Reads [] p := by simp [Reads]

@[simp] theorem reads_append {refs refs' : List Reference} :
    Reads (refs ++ refs') p ↔ Reads refs p ∨ Reads refs' p := by
  simp only [Reads, mem_append]
  grind

@[simp] theorem reads_singleton {ref : Reference} : Reads [ref] p ↔ p = ref.path := by
  simp [Reads, eq_comm]

@[simp] theorem reads_texts {paths : List String} : Reads (paths.map .text) p ↔ p ∈ paths := by
  simp [Reads, Reference.path]

theorem reads_flatMap {α : Type} {xs : List α} {f : α → List Reference} :
    Reads (xs.flatMap f) p ↔ ∃ x ∈ xs, Reads (f x) p := by
  simp only [Reads, mem_flatMap]
  grind

/-- A pattern that can be written is a constant text, and refers to nothing. -/
theorem Term.references_of_likeRegex {t : Term} {regex : String} (h : t.likeRegex = .ok regex) :
    t.references = [] := by
  obtain ⟨s, hs, -⟩ := Term.likeRegex_eq_ok.mp h
  rw [Term.references_of_constant hs, literal]
  split
  · simp [Value.field, exprReads_object, fieldReads]
  · rename_i hhead
    cases htext : s.toList with
    | nil => simp [exprReads, htext]
    | cons c cs =>
      have hc : c ≠ '$' := by simpa [htext] using hhead
      simp [exprReads, htext, hc]

mutual

/-- The expression of a term reads what the term refers to. -/
theorem Term.mem_exprReads_iff : ∀ {t : Term} {e : Value}, t.expression = .ok e →
    (p ∈ exprReads e ↔ Reads t.references p)
  | .column c, e, h | .field name, e, h => by
    cases h
    simp [Term.references, Reference.path]
  | .const v, e, h | .param _ v, e, h => by
    cases h
    simp [Term.references]
  | .compare l op r, e, h | .arith op l r, e, h => by
    obtain ⟨l', hl, r', hr, rfl⟩ := bind₂_eq_ok.mp h
    rw [mem_exprReads_binary op.operator_ne_literal, Term.mem_exprReads_iff hl,
      Term.mem_exprReads_iff hr, Term.references, reads_append]
  | .dateTrunc unit arg, e, h => by
    obtain ⟨arg', harg, rfl⟩ := bind₁_eq_ok.mp h
    rw [mem_exprReads_dateTrunc, Term.references]
    exact Term.mem_exprReads_iff harg
  | .caseOf arms, e, h => Arms.mem_exprReads_iff h

theorem Arms.mem_exprReads_iff : ∀ {arms : Arms} {e : Value}, arms.expression = .ok e →
    (p ∈ exprReads e ↔ Reads arms.references p)
  | .done, e, h => by
    cases h
    simp [exprReads, Arms.references]
  | .otherwise t, e, h => Term.mem_exprReads_iff h
  | .arm c t rest, e, h => by
    obtain ⟨rest', hrest, c', hc, t', ht, rfl⟩ := bind₃_eq_ok.mp h
    rw [mem_exprReads_cond, Condition.mem_exprReads_iff hc, Term.mem_exprReads_iff ht,
      Arms.mem_exprReads_iff hrest, Arms.references, reads_append, reads_append, or_assoc]

theorem Condition.mem_exprReads_iff : ∀ {c : Condition} {e : Value}, c.expression = .ok e →
    (p ∈ exprReads e ↔ Reads c.references p)
  | .all cs, e, h | .any cs, e, h => by
    obtain ⟨es, hes, rfl⟩ := bind₁_eq_ok.mp h
    rw [mem_exprReads_field (by decide)]
    exact mem_itemReads_conditions hes
  | .compare l op r, e, h => by
    obtain ⟨l', hl, r', hr, rfl⟩ := bind₂_eq_ok.mp h
    rw [mem_exprReads_binary op.operator_ne_literal, Term.mem_exprReads_iff hl,
      Term.mem_exprReads_iff hr, Condition.references, reads_append]
  | .member t m negated, e, h => by
    obtain ⟨m', hm, t', ht, rfl⟩ := bind₂_eq_ok.mp h
    rw [mem_exprReads_notExpression, mem_exprReads_binary (by decide), Term.mem_exprReads_iff ht,
      Members.mem_exprReads_iff hm, Condition.references, reads_append]
  | .isNull t negated, e, h | .truth t negated, e, h => by
    obtain ⟨t', ht, rfl⟩ := bind₁_eq_ok.mp h
    rw [mem_exprReads_binary (by cases negated <;> decide), Term.mem_exprReads_iff ht]
    simp [exprReads, Condition.references]
  | .between t low high negated, e, h => by
    obtain ⟨t', ht, low', hlow, high', hhigh, rfl⟩ := bind₃_eq_ok.mp h
    rw [mem_exprReads_notExpression, mem_exprReads_range, Term.mem_exprReads_iff ht,
      Term.mem_exprReads_iff hlow, Term.mem_exprReads_iff hhigh, Condition.references,
      reads_append, reads_append, or_assoc]
  | .like t pattern ignoreCase negated, e, h => by
    obtain ⟨t', ht, regex, hregex, rfl⟩ := bind₂_eq_ok.mp h
    rw [mem_exprReads_notExpression, mem_exprReads_regexMatch hregex, Term.mem_exprReads_iff ht,
      Condition.references, Term.references_of_likeRegex hregex, append_nil]

theorem Members.mem_exprReads_iff : ∀ {m : Members} {e : Value}, m.expression = .ok e →
    (p ∈ exprReads e ↔ Reads m.references p)
  | .list ts, e, h => by
    rw [Members.expression] at h
    rw [Members.references]
    cases hc : constants? ts with
    | some values =>
      rw [hc] at h
      cases h
      simp [exprReads_array]
    | none =>
      rw [hc] at h
      obtain ⟨es, hes, rfl⟩ := bind₁_eq_ok.mp h
      exact mem_itemReads_terms hes
  | .nested name, e, h => by
    cases h
    simp [Members.references, Reference.path]

theorem mem_itemReads_terms : ∀ {ts : List Term} {es : List Value},
    termExpressions ts = .ok es → (p ∈ itemReads es ↔ Reads (termReferences ts) p)
  | [], es, h => by
    cases h
    simp [itemReads, termReferences]
  | t :: ts, es, h => by
    obtain ⟨e, he, rest, hrest, rfl⟩ := bind₂_eq_ok.mp h
    simp [itemReads, termReferences, Term.mem_exprReads_iff he, mem_itemReads_terms hrest]

theorem mem_itemReads_conditions : ∀ {cs : List Condition} {es : List Value},
    expressions cs = .ok es → (p ∈ itemReads es ↔ Reads (conditionReferences cs) p)
  | [], es, h => by
    cases h
    simp [itemReads, conditionReferences]
  | c :: cs, es, h => by
    obtain ⟨e, he, rest, hrest, rfl⟩ := bind₂_eq_ok.mp h
    simp [itemReads, conditionReferences, Condition.mem_exprReads_iff he,
      mem_itemReads_conditions hrest]

end

end

/-! ### Equal terms -/

section

variable {name : String}

mutual

/-- Equal terms refer to the same fields. -/
theorem Term.Same.field_mem : ∀ {a b : Term}, a.Same b →
    (.field name ∈ a.references ↔ .field name ∈ b.references)
  | _, _, .column _ | _, _, .countAll | _, _, .field _ => .rfl
  | _, _, .compare _ hl hr
  | _, _, .arith _ hl hr => by simp [Term.references, hl.field_mem, hr.field_mem]
  | _, _, .aggregate _ _ ha => ha.field_mem
  | _, _, .dateTrunc _ ha => ha.field_mem
  | _, _, .caseOf h => Arms.Same.field_mem h
  | _, _, .param .. | _, _, .const _ => by simp [Term.references]

theorem Arms.Same.field_mem : ∀ {a b : Arms}, a.Same b →
    (.field name ∈ a.references ↔ .field name ∈ b.references)
  | _, _, .done => .rfl
  | _, _, .otherwise h => Term.Same.field_mem h
  | _, _, .arm hc ht hrest => by
    simp [Arms.references, Condition.Same.field_mem hc, Term.Same.field_mem ht, hrest.field_mem]

theorem Condition.Same.field_mem : ∀ {a b : Condition}, a.Same b →
    (.field name ∈ a.references ↔ .field name ∈ b.references)
  | _, _, .all h | _, _, .any h => SameConditions.field_mem h
  | _, _, .compare _ hl hr | _, _, .like _ _ hl hr => by
    simp [Condition.references, Term.Same.field_mem hl, Term.Same.field_mem hr]
  | _, _, .member _ ht hm => by
    simp [Condition.references, Term.Same.field_mem ht, Members.Same.field_mem hm]
  | _, _, .isNull _ h => Term.Same.field_mem h
  | _, _, .between _ ht hlow hhigh => by
    simp [Condition.references, Term.Same.field_mem ht, Term.Same.field_mem hlow,
      Term.Same.field_mem hhigh]
  | _, _, .truth _ h => Term.Same.field_mem h

theorem Members.Same.field_mem : ∀ {a b : Members}, a.Same b →
    (.field name ∈ a.references ↔ .field name ∈ b.references)
  | _, _, .list h => by
    rw [Members.field_mem_list, Members.field_mem_list]
    exact SameTerms.field_mem h
  | _, _, .subselect _ => .rfl
  | _, _, .nested _ => .rfl

theorem SameTerms.field_mem : ∀ {a b : List Term}, SameTerms a b →
    (.field name ∈ termReferences a ↔ .field name ∈ termReferences b)
  | _, _, .nil => .rfl
  | _, _, .cons ht hts => by simp [termReferences, Term.Same.field_mem ht, hts.field_mem]

theorem SameConditions.field_mem : ∀ {a b : List Condition}, SameConditions a b →
    (.field name ∈ conditionReferences a ↔ .field name ∈ conditionReferences b)
  | _, _, .nil => .rfl
  | _, _, .cons hc hcs => by
    simp [conditionReferences, Condition.Same.field_mem hc, hcs.field_mem]

end

end

/-! ### Negated and joined conditions -/

mutual

theorem Condition.references_flipped : ∀ c : Condition, c.flipped.references = c.references
  | .all cs | .any cs => conditionReferences_flippedAll cs
  | .compare .. | .member .. | .isNull .. | .between .. | .like .. | .truth .. => rfl

theorem conditionReferences_flippedAll : ∀ cs : List Condition,
    conditionReferences (flippedAll cs) = conditionReferences cs
  | [] => rfl
  | c :: cs => by
    simp [flippedAll, conditionReferences, c.references_flipped, conditionReferences_flippedAll cs]

end

theorem Condition.references_conjuncts (c : Condition) :
    conditionReferences c.conjuncts = c.references := by
  cases c with
  | all cs => rfl
  | _ => exact append_nil _

theorem Condition.references_disjuncts (c : Condition) :
    conditionReferences c.disjuncts = c.references := by
  cases c with
  | any cs => rfl
  | _ => exact append_nil _

@[simp] theorem Condition.references_and (lhs rhs : Condition) :
    (lhs.and rhs).references = lhs.references ++ rhs.references := by
  rw [Condition.and, Condition.references, conditionReferences_append,
    Condition.references_conjuncts, Condition.references_conjuncts]

@[simp] theorem Condition.references_or (lhs rhs : Condition) :
    (lhs.or rhs).references = lhs.references ++ rhs.references := by
  rw [Condition.or, Condition.references, conditionReferences_append,
    Condition.references_disjuncts, Condition.references_disjuncts]

end DocSql
