import DocSql.Proofs.ListMembers

/-! # The paths that expressions and filters read

In an expression every text that starts with `$` reads a path, unless it stands inside `$literal`.
In a filter the names of fields are paths, and an expression stands below `$expr`.  This module says
which paths the expression of a term and the filter of a condition read, in terms of the term and the
condition.

The paths of a term are told apart by where they stand.  `walked` holds those of the columns and
fields that a transformation of the term reaches.  `stray` holds what it leaves as it is: the paths
that the members of a list of values read, those of texts inside constant documents and arrays, and
those of the argument of a call if the transformation does not go into calls.
-/
namespace DocSql
open Compiled List

variable {t : Term} {field : String}

/-! ### Expressions -/

mutual

/-- The paths that an expression reads. -/
def exprReads : Value → List String
  | .string s =>
    match s.toList with
    | '$' :: path => [String.ofList path]
    | _ => []
  | .array items => itemReads items
  | .object fields => fieldReads fields
  | _ => []

/-- The paths that expressions read. -/
def itemReads : List Value → List String
  | [] => []
  | e :: es => exprReads e ++ itemReads es

/-- The paths that the operands of an expression read. -/
def fieldReads : List (String × Value) → List String
  | [] => []
  | (name, e) :: rest => (if name = "$literal" then [] else exprReads e) ++ fieldReads rest

end

section

variable {p : String}

@[simp] theorem exprReads_path (path : String) : exprReads (.path path) = [path] := by
  simp [Value.path, exprReads]

theorem exprReads_array (items : List Value) : exprReads (.array items) = itemReads items := by
  rw [exprReads]

theorem exprReads_object (fields : List (String × Value)) :
    exprReads (.object fields) = fieldReads fields := by
  rw [exprReads]

theorem mem_exprReads_field {name : String} (hname : name ≠ "$literal") {e : Value} :
    p ∈ exprReads (.field name e) ↔ p ∈ exprReads e := by
  simp [Value.field, exprReads_object, fieldReads, hname]

theorem mem_exprReads_binary {name : String} (hname : name ≠ "$literal") {l r : Value} :
    p ∈ exprReads (binary name l r) ↔ p ∈ exprReads l ∨ p ∈ exprReads r := by
  rw [binary, mem_exprReads_field hname]
  simp [exprReads_array, itemReads]

theorem mem_exprReads_notExpression {negated : Bool} {e : Value} :
    p ∈ exprReads (notExpression negated e) ↔ p ∈ exprReads e := by
  cases negated with
  | false => rfl
  | true =>
    rw [notExpression, if_pos rfl, mem_exprReads_field (by decide)]
    simp [exprReads_array, itemReads]

theorem mem_exprReads_cond {c t rest : Value} :
    p ∈ exprReads (.field "$cond" (.object [("if", c), ("then", t), ("else", rest)])) ↔
      p ∈ exprReads c ∨ p ∈ exprReads t ∨ p ∈ exprReads rest := by
  rw [mem_exprReads_field (by decide)]
  simp [exprReads_object, fieldReads]

/-- The two bounds of a range are compared with the same expression. -/
theorem mem_exprReads_range {t low high : Value} :
    p ∈ exprReads (.field "$and" (.array [binary "$gte" t low, binary "$lte" t high])) ↔
      p ∈ exprReads t ∨ p ∈ exprReads low ∨ p ∈ exprReads high := by
  have habove : "$gte" ≠ "$literal" := by decide
  have hbelow : "$lte" ≠ "$literal" := by decide
  rw [mem_exprReads_field (by decide)]
  simp only [exprReads_array, itemReads, append_nil, mem_append,
    mem_exprReads_binary habove, mem_exprReads_binary hbelow]
  grind

end

/-! ### Paths of terms -/

mutual

/-- The paths of the columns and fields that a transformation of the term reaches. -/
def Term.walked (into : Bool) : Term → List String
  | .column c => [c.path]
  | .field name => [name]
  | .compare l _ r => l.walked into ++ r.walked into
  | .arith _ l r => l.walked into ++ r.walked into
  | .dateTrunc _ arg => if into then arg.walked into else []
  | .caseOf arms => arms.walked into
  | .countAll | .aggregate .. | .param .. | .const _ => []

/-- The paths that a transformation of branches reaches. -/
def Arms.walked (into : Bool) : Arms → List String
  | .done => []
  | .otherwise t => t.walked into
  | .arm c t rest => c.walked into ++ t.walked into ++ rest.walked into

/-- The paths that a transformation of a condition reaches.  The pattern of LIKE is a text. -/
def Condition.walked (into : Bool) : Condition → List String
  | .all cs => allWalked into cs
  | .any cs => allWalked into cs
  | .compare l _ r => l.walked into ++ r.walked into
  | .member t _ _ => t.walked into
  | .isNull t _ => t.walked into
  | .between t low high _ => t.walked into ++ low.walked into ++ high.walked into
  | .like t _ _ _ => t.walked into
  | .truth t _ => t.walked into

/-- The paths that a transformation of conditions reaches. -/
def allWalked (into : Bool) : List Condition → List String
  | [] => []
  | c :: cs => c.walked into ++ allWalked into cs

end

mutual

/-- The paths that the expression of the term reads and a transformation of it leaves as they are. -/
def Term.stray (into : Bool) : Term → List String
  | .const v => exprReads (literal v)
  | .param _ v => exprReads (literal v)
  | .compare l _ r => l.stray into ++ r.stray into
  | .arith _ l r => l.stray into ++ r.stray into
  | .dateTrunc _ arg => if into then arg.stray into else arg.walked true ++ arg.stray true
  | .caseOf arms => arms.stray into
  | .column _ | .field _ | .countAll | .aggregate .. => []

/-- The paths that a transformation of branches leaves as they are. -/
def Arms.stray (into : Bool) : Arms → List String
  | .done => []
  | .otherwise t => t.stray into
  | .arm c t rest => c.stray into ++ t.stray into ++ rest.stray into

/-- The paths that a transformation of a condition leaves as they are. -/
def Condition.stray (into : Bool) : Condition → List String
  | .all cs => allStray into cs
  | .any cs => allStray into cs
  | .compare l _ r => l.stray into ++ r.stray into
  | .member t m _ => t.stray into ++ m.paths
  | .isNull t _ => t.stray into
  | .between t low high _ => t.stray into ++ low.stray into ++ high.stray into
  | .like t _ _ _ => t.stray into
  | .truth t _ => t.stray into

/-- The paths that what a term is looked for in reads. -/
def Members.paths : Members → List String
  | .list ts =>
    match constants? ts with
    | some values => itemReads (values.map literal)
    | none => termPaths ts
  | .nested name => [name]
  | .subselect _ => []

/-- The paths that terms read. -/
def termPaths : List Term → List String
  | [] => []
  | t :: ts => t.walked true ++ t.stray true ++ termPaths ts

/-- The paths that a transformation of conditions leaves as they are. -/
def allStray (into : Bool) : List Condition → List String
  | [] => []
  | c :: cs => c.stray into ++ allStray into cs

end

theorem Term.mem_walked_of_fieldPath (h : t.fieldPath? = some field) (into : Bool) :
    field ∈ t.walked into := by
  cases t with
  | column c | field name =>
    cases h
    exact mem_singleton.mpr rfl
  | _ => cases h

theorem Term.constant?_of_fieldPath (h : t.fieldPath? = some field) : t.constant? = none := by
  cases t <;> first | rfl | cases h

theorem Term.fieldPath?_of_constant {value : Value} (h : t.constant? = some value) :
    t.fieldPath? = none := by
  cases t <;> first | rfl | cases h

/-! ### The paths of the expression of a term -/

section

variable {p : String}

theorem exprReads_likeRegex {regex : String} (h : t.likeRegex = .ok regex) :
    exprReads (.string regex) = [] := by
  obtain ⟨s, -, rfl⟩ := Term.likeRegex_eq_ok.mp h
  simp [exprReads, likeRegex]

/-- Neither the pattern nor the options of a match are paths. -/
theorem mem_exprReads_regexMatch {pattern : Term} {regex : String} {ignoreCase : Bool} {t : Value}
    (h : pattern.likeRegex = .ok regex) :
    p ∈ exprReads (.field "$regexMatch" (.object ([("input", t), ("regex", .string regex)] ++
      if ignoreCase then [("options", Value.string "i")] else []))) ↔ p ∈ exprReads t := by
  have hoptions : exprReads (.string "i") = [] := by decide
  rw [mem_exprReads_field (by decide)]
  cases ignoreCase <;> simp [exprReads_object, fieldReads, exprReads_likeRegex h, hoptions]

/-- A date cut to a unit reads what the date reads. -/
theorem mem_exprReads_dateTrunc {unit : DateUnit} {date : Value} :
    p ∈ exprReads (.field "$dateFromString" (.field "dateString" (.field "$dateToString"
      (.object [("format", .string unit.format), ("date", date)])))) ↔ p ∈ exprReads date := by
  have hformat : exprReads (.string unit.format) = [] := by cases unit <;> decide
  rw [mem_exprReads_field (by decide), mem_exprReads_field (by decide),
    mem_exprReads_field (by decide)]
  simp [exprReads_object, fieldReads, hformat]

mutual

/-- The expression of a term reads the paths of the term. -/
theorem Term.mem_exprReads (into : Bool) : ∀ {t : Term} {e : Value}, t.expression = .ok e →
    (p ∈ exprReads e ↔ p ∈ t.walked into ∨ p ∈ t.stray into)
  | .column c, e, h | .field name, e, h | .const v, e, h | .param _ v, e, h => by
    cases h
    simp [Term.walked, Term.stray]
  | .compare l op r, e, h | .arith op l r, e, h => by
    obtain ⟨l', hl, r', hr, rfl⟩ := bind₂_eq_ok.mp h
    rw [mem_exprReads_binary op.operator_ne_literal, Term.mem_exprReads into hl,
      Term.mem_exprReads into hr]
    simp only [Term.walked, Term.stray, mem_append]
    exact or_or_or_comm
  | .dateTrunc unit arg, e, h => by
    obtain ⟨arg', harg, rfl⟩ := bind₁_eq_ok.mp h
    rw [mem_exprReads_dateTrunc]
    cases into with
    | true | false => simpa [Term.walked, Term.stray] using Term.mem_exprReads true harg
  | .caseOf arms, e, h => Arms.mem_exprReads into h

theorem Arms.mem_exprReads (into : Bool) : ∀ {arms : Arms} {e : Value}, arms.expression = .ok e →
    (p ∈ exprReads e ↔ p ∈ arms.walked into ∨ p ∈ arms.stray into)
  | .done, e, h => by
    cases h
    simp [exprReads, Arms.walked, Arms.stray]
  | .otherwise t, e, h => Term.mem_exprReads into h
  | .arm c t rest, e, h => by
    obtain ⟨rest', hrest, c', hc, t', ht, rfl⟩ := bind₃_eq_ok.mp h
    rw [mem_exprReads_cond, Condition.mem_exprReads into hc, Term.mem_exprReads into ht,
      Arms.mem_exprReads into hrest]
    simp only [Arms.walked, Arms.stray, mem_append]
    grind

theorem Condition.mem_exprReads (into : Bool) : ∀ {c : Condition} {e : Value},
    c.expression = .ok e → (p ∈ exprReads e ↔ p ∈ c.walked into ∨ p ∈ c.stray into)
  | .all cs, e, h | .any cs, e, h => by
    obtain ⟨es, hes, rfl⟩ := bind₁_eq_ok.mp h
    rw [mem_exprReads_field (by decide)]
    exact mem_itemReads_expressions into hes
  | .compare l op r, e, h => by
    obtain ⟨l', hl, r', hr, rfl⟩ := bind₂_eq_ok.mp h
    rw [mem_exprReads_binary op.operator_ne_literal, Term.mem_exprReads into hl,
      Term.mem_exprReads into hr]
    simp only [Condition.walked, Condition.stray, mem_append]
    exact or_or_or_comm
  | .member t m negated, e, h => by
    obtain ⟨m', hm, t', ht, rfl⟩ := bind₂_eq_ok.mp h
    rw [mem_exprReads_notExpression, mem_exprReads_binary (by decide), Term.mem_exprReads into ht,
      Members.mem_exprReads hm]
    simp only [Condition.walked, Condition.stray, mem_append]
    exact or_assoc
  | .isNull t negated, e, h | .truth t negated, e, h => by
    obtain ⟨t', ht, rfl⟩ := bind₁_eq_ok.mp h
    rw [mem_exprReads_binary (by cases negated <;> decide), Term.mem_exprReads into ht]
    simp [exprReads, Condition.walked, Condition.stray]
  | .between t low high negated, e, h => by
    obtain ⟨t', ht, low', hlow, high', hhigh, rfl⟩ := bind₃_eq_ok.mp h
    rw [mem_exprReads_notExpression, mem_exprReads_range, Term.mem_exprReads into ht,
      Term.mem_exprReads into hlow, Term.mem_exprReads into hhigh]
    simp only [Condition.walked, Condition.stray, mem_append]
    grind
  | .like t pattern ignoreCase negated, e, h => by
    obtain ⟨t', ht, regex, hregex, rfl⟩ := bind₂_eq_ok.mp h
    rw [mem_exprReads_notExpression, mem_exprReads_regexMatch hregex, Term.mem_exprReads into ht]
    rfl

theorem Members.mem_exprReads : ∀ {m : Members} {e : Value}, m.expression = .ok e →
    (p ∈ exprReads e ↔ p ∈ m.paths)
  | .list ts, e, h => by
    rw [Members.expression] at h
    rw [Members.paths]
    cases hc : constants? ts with
    | some values =>
      rw [hc] at h
      cases h
      rfl
    | none =>
      rw [hc] at h
      obtain ⟨es, hes, rfl⟩ := bind₁_eq_ok.mp h
      exact mem_itemReads_termExpressions hes
  | .nested name, e, h => by
    cases h
    simp [Members.paths]

theorem mem_itemReads_termExpressions : ∀ {ts : List Term} {es : List Value},
    termExpressions ts = .ok es → (p ∈ itemReads es ↔ p ∈ termPaths ts)
  | [], es, h => by
    cases h
    rfl
  | t :: ts, es, h => by
    obtain ⟨e, he, rest, hrest, rfl⟩ := bind₂_eq_ok.mp h
    simp only [itemReads, termPaths, mem_append, Term.mem_exprReads true he,
      mem_itemReads_termExpressions hrest]

theorem mem_itemReads_expressions (into : Bool) : ∀ {cs : List Condition} {es : List Value},
    expressions cs = .ok es → (p ∈ itemReads es ↔ p ∈ allWalked into cs ∨ p ∈ allStray into cs)
  | [], es, h => by
    cases h
    simp [itemReads, allWalked, allStray]
  | c :: cs, es, h => by
    obtain ⟨e, he, rest, hrest, rfl⟩ := bind₂_eq_ok.mp h
    simp only [itemReads, allWalked, allStray, mem_append, Condition.mem_exprReads into he,
      mem_itemReads_expressions into hrest]
    exact or_or_or_comm

end

end

/-! ### Filters -/

mutual

/-- The paths that a filter reads. -/
def filterReads : Value → List String
  | .object fields => filterFieldReads fields
  | _ => []

/-- The paths that the parts of a filter read.  A name that is no operator is a path. -/
def filterFieldReads : List (String × Value) → List String
  | [] => []
  | (name, operand) :: rest =>
    (if name = "$expr" then exprReads operand
      else if name = "$and" ∨ name = "$or" then filterListReads operand
      else [name]) ++ filterFieldReads rest

/-- The paths that a list of filters reads. -/
def filterListReads : Value → List String
  | .array items => filterItemReads items
  | _ => []

/-- The paths that filters read. -/
def filterItemReads : List Value → List String
  | [] => []
  | f :: fs => filterReads f ++ filterItemReads fs

end

/-- The paths that the values a field is tested against read.  They are values, unless the field has
the name of the operator for expressions and is taken for it. -/
def askedPaths (field : String) (values : List Value) : List String :=
  if field = "$expr" then itemReads values else []

/-- A path is that of a field or leads into it. -/
def Within (field path : String) : Prop := path = field ∨ ∃ sub, path = field ++ "." ++ sub

/-- The paths that the comparison of a field reads outside the field.  A document of one field is
compared inside the field. -/
def comparedPaths (field : String) (value : Value) : List String :=
  match value with
  | .object [_] => []
  | value => askedPaths field [value]

/-- The paths that the filter of a test reads and a transformation of the test leaves as they are. -/
def Condition.testStray (c : Condition) : List String :=
  match c with
  | .compare lhs _ rhs =>
    match lhs.fieldPath?, rhs.constant?, rhs.fieldPath?, lhs.constant? with
    | some field, some value, _, _ => comparedPaths field value
    | _, _, some field, some value => comparedPaths field value
    | _, _, _, _ => c.stray false
  | .member t (.list ts) _ =>
    match t.fieldPath?, constants? ts with
    | some field, some values => askedPaths field values
    | _, _ => c.stray false
  | .between t low high _ =>
    match t.fieldPath?, low.constant?, high.constant? with
    | some field, some low, some high => askedPaths field [low, high]
    | _, _, _ => c.stray false
  | c => c.stray false

mutual

/-- The paths that the filter of a condition reads and a transformation of the condition leaves as
they are. -/
def Condition.filterStray : Condition → List String
  | .all cs => allFilterStray cs
  | .any cs => allFilterStray cs
  | c => c.testStray

/-- The paths that a transformation of conditions leaves as they are. -/
def allFilterStray : List Condition → List String
  | [] => []
  | c :: cs => c.filterStray ++ allFilterStray cs

end

theorem filterReads_expr (e : Value) : filterReads (.field "$expr" e) = exprReads e := by
  simp [Value.field, filterReads, filterFieldReads]

theorem filterReads_and (qs : List Value) :
    filterReads (.field "$and" (.array qs)) = filterItemReads qs := by
  simp [Value.field, filterReads, filterFieldReads, filterListReads]

theorem filterReads_or (qs : List Value) :
    filterReads (.field "$or" (.array qs)) = filterItemReads qs := by
  simp [Value.field, filterReads, filterFieldReads, filterListReads]

section

variable {p : String}
variable {tests : List (String × Value)}

/-- A path outside the reached ones is read by the filter of an expression if it is stray. -/
theorem Condition.mem_expressionFilter {c : Condition} {q : Value}
    (h : c.expressionFilter = .ok q) (hp : ∀ field ∈ c.walked false, ¬Within field p) :
    p ∈ filterReads q ↔ p ∈ c.stray false := by
  obtain ⟨e, he, rfl⟩ := bind₁_eq_ok.mp h
  rw [filterReads_expr, Condition.mem_exprReads false he]
  exact or_iff_right fun hmem => hp p hmem (.inl rfl)

/-- A test of a field reads the field and what it is tested against. -/
theorem mem_fieldTest (hp : ¬Within field p) {values : List Value}
    (hvalues : p ∈ fieldReads tests ↔ p ∈ itemReads values) :
    p ∈ filterReads (.field field (.object tests)) ↔ p ∈ askedPaths field values := by
  have hne : p ≠ field := fun heq => hp (.inl heq)
  rw [askedPaths, Value.field, filterReads, filterFieldReads]
  by_cases hexpr : field = "$expr"
  · simp [hexpr, filterFieldReads, exprReads_object, hvalues]
  · by_cases hlist : field = "$and" ∨ field = "$or"
    · simp [hexpr, hlist, filterFieldReads, filterListReads]
    · simp [hexpr, hlist, filterFieldReads, hne]

/-- A field inside another has a dot in its name, and operators have none. -/
theorem filterReads_inside (field sub : String) (operand : Value) :
    filterReads (.field (field ++ "." ++ sub) operand) = [field ++ "." ++ sub] := by
  have hdot : ∀ name : String, '.' ∉ name.toList → field ++ "." ++ sub ≠ name := by
    rintro _ hname rfl
    exact hname (by simp)
  have hlist : ¬(field ++ "." ++ sub = "$and" ∨ field ++ "." ++ sub = "$or") := by
    rintro (h | h)
    · exact hdot "$and" (by decide) h
    · exact hdot "$or" (by decide) h
  rw [Value.field, filterReads, filterFieldReads, if_neg (hdot "$expr" (by decide)), if_neg hlist,
    filterFieldReads, append_nil]

theorem mem_compareField (hp : ¬Within field p) (op : Comparison) (value : Value) :
    p ∈ filterReads (compareField field op value) ↔ p ∈ comparedPaths field value := by
  unfold compareField
  split
  · rename_i sub inner
    have hne : p ≠ field ++ "." ++ sub := fun heq => hp (.inr ⟨sub, heq⟩)
    simpa [filterReads_inside, comparedPaths] using hne
  · rename_i hsub
    have hasked : comparedPaths field value = askedPaths field [value] := by
      unfold comparedPaths
      split
      · exact (hsub _ _ rfl).elim
      · rfl
    rw [hasked]
    refine mem_fieldTest hp ?_
    simp [fieldReads, itemReads, op.operator_ne_literal]

/-- A test of a field against nothing but constants without paths reads the field. -/
theorem Term.mem_fieldTest (hfield : t.fieldPath? = some field)
    (hp : ∀ field ∈ t.walked false, ¬Within field p) (htests : fieldReads tests = []) :
    p ∈ filterReads (.field field (.object tests)) ↔ p ∈ t.stray false := by
  have hstray : t.stray false = askedPaths field [] := by
    cases t with
    | column c | field name => simp [Term.stray, askedPaths, itemReads]
    | _ => cases hfield
  rw [hstray]
  refine DocSql.mem_fieldTest (hp field (Term.mem_walked_of_fieldPath hfield false)) ?_
  rw [htests, itemReads]

/-- The same for a test and its filter. -/
theorem Condition.mem_test (c : Condition) {q : Value} (h : c.testFilter = .ok q)
    (hp : ∀ field ∈ c.walked false, ¬Within field p) : p ∈ filterReads q ↔ p ∈ c.testStray := by
  cases c with
  | all cs | any cs => exact Condition.mem_expressionFilter h hp
  | compare lhs op rhs =>
    obtain ⟨hl, hr⟩ := forall_mem_append.mp hp
    rw [Condition.testFilter] at h
    split at h
    · rename_i field value hfield hvalue
      simp only [Condition.testStray, hfield, hvalue]
      cases h
      exact mem_compareField (hl field (Term.mem_walked_of_fieldPath hfield false)) op value
    · rename_i field value hfield hvalue _
      simp only [Condition.testStray, hfield, hvalue, Term.constant?_of_fieldPath hfield,
        Term.fieldPath?_of_constant hvalue]
      cases h
      exact mem_compareField (hr field (Term.mem_walked_of_fieldPath hfield false)) op.swap value
    · rename_i hleft hright
      rw [Condition.testStray]
      split
      · exact (hleft _ _ ‹_› ‹_›).elim
      · exact (hright _ _ ‹_› ‹_›).elim
      · exact Condition.mem_expressionFilter h hp
  | member t m negated =>
    cases m with
    | list ts =>
      rw [Condition.testFilter] at h
      split at h
      · rename_i field values hfield hvalues
        simp only [Condition.testStray, hfield, hvalues]
        cases h
        refine mem_fieldTest (hp field (Term.mem_walked_of_fieldPath hfield false)) ?_
        cases negated <;> simp [fieldReads, exprReads_array]
      · rename_i hnot
        rw [Condition.testStray]
        split
        · exact (hnot _ _ ‹_› ‹_›).elim
        · exact Condition.mem_expressionFilter h hp
    | subselect s | nested name => exact Condition.mem_expressionFilter h hp
  | isNull t negated | truth t negated =>
    rw [Condition.testFilter] at h
    split at h
    · rename_i field hfield
      cases h
      refine Term.mem_fieldTest hfield hp ?_
      simp [fieldReads, exprReads]
    · exact Condition.mem_expressionFilter h hp
  | between t low high negated =>
    rw [Condition.testFilter] at h
    split at h
    · rename_i field low high hfield hlow hhigh
      simp only [Condition.testStray, hfield, hlow, hhigh]
      cases h
      obtain ⟨ht, -⟩ := forall_mem_append.mp (forall_mem_append.mp hp).1
      have hne := ht field (Term.mem_walked_of_fieldPath hfield false)
      cases negated with
      | false =>
        refine mem_fieldTest hne ?_
        simp [fieldReads, itemReads]
      | true =>
        refine mem_fieldTest hne ?_
        simp [fieldReads, itemReads, exprReads_object]
    · rename_i hnot
      rw [Condition.testStray]
      split
      · exact (hnot _ _ _ ‹_› ‹_› ‹_›).elim
      · exact Condition.mem_expressionFilter h hp
  | like t pattern ignoreCase negated =>
    rw [Condition.testFilter] at h
    split at h
    · cases h
    · rename_i field hfield
      obtain ⟨regex, hregex, rfl⟩ := bind₁_eq_ok.mp h
      have htest : fieldReads (("$regex", .string regex) ::
          if ignoreCase then [("$options", Value.string "i")] else []) = [] := by
        have hoption : exprReads (.string "i") = [] := by simp [exprReads]
        cases ignoreCase <;> simp [fieldReads, exprReads_likeRegex hregex, hoption]
      cases negated with
      | false => exact Term.mem_fieldTest hfield hp htest
      | true =>
        refine Term.mem_fieldTest hfield hp ?_
        rw [fieldReads, exprReads_object, htest]
        rfl

mutual

/-- A path outside the reached ones is read by the filter of a condition exactly if it is stray. -/
theorem Condition.mem_filter : ∀ {c : Condition} {q : Value}, c.filter = .ok q →
    (∀ field ∈ c.walked false, ¬Within field p) → (p ∈ filterReads q ↔ p ∈ c.filterStray)
  | .all cs, q, h, hp => by
    obtain ⟨qs, hqs, rfl⟩ := bind₁_eq_ok.mp h
    rw [filterReads_and]
    exact mem_filters hqs hp
  | .any cs, q, h, hp => by
    obtain ⟨qs, hqs, rfl⟩ := bind₁_eq_ok.mp h
    rw [filterReads_or]
    exact mem_filters hqs hp
  | .compare .., _, h, hp => Condition.mem_test (.compare _ _ _) h hp
  | .member .., _, h, hp => Condition.mem_test (.member _ _ _) h hp
  | .isNull .., _, h, hp => Condition.mem_test (.isNull _ _) h hp
  | .between .., _, h, hp => Condition.mem_test (.between _ _ _ _) h hp
  | .like .., _, h, hp => Condition.mem_test (.like _ _ _ _) h hp
  | .truth .., _, h, hp => Condition.mem_test (.truth _ _) h hp

theorem mem_filters : ∀ {cs : List Condition} {qs : List Value}, filters cs = .ok qs →
    (∀ field ∈ allWalked false cs, ¬Within field p) →
    (p ∈ filterItemReads qs ↔ p ∈ allFilterStray cs)
  | [], qs, h, _ => by
    cases h
    rfl
  | c :: cs, qs, h, hp => by
    obtain ⟨q, hq, rest, hrest, rfl⟩ := bind₂_eq_ok.mp h
    rw [allWalked] at hp
    obtain ⟨hc, hcs⟩ := forall_mem_append.mp hp
    simp only [filterItemReads, allFilterStray, mem_append]
    rw [Condition.mem_filter hq hc, mem_filters hrest hcs]

end

end

end DocSql
