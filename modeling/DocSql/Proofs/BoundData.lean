import Mathlib.Data.List.Forall2
import DocSql.Proofs.StoreMeaning
import DocSql.Term.Expression

/-! # Constants inside expressions

The store reads an expression by one rule, at every depth: a text that starts with `$` is a path, and
a document with a name that starts with `$` is an operator with its operand.  Only below `$literal` is
a value just data.  `evaluate` follows this rule, for any meaning of the other operators.

A constant of a statement is written into an expression as it is, and only a text that starts with
`$` is put below `$literal`.  So a constant stands for itself in every document exactly if it is a
text, or if nothing inside it starts with `$`.  In a projection every constant stands for itself.
-/
namespace DocSql
open List

variable {s name : String} {fields : List (String × Value)}

/-- Whether a name or a text starts with `$`. -/
def isMarked (s : String) : Bool := s.toList.head? == some '$'

/-! ### Reading expressions -/

/-- What operators mean: a name, a document and an operand give a value, or nothing where the field
that they look for is missing, or are refused. -/
abbrev Operators := String → Value → Value → Option (Option Value)

mutual

/-- The value of an expression in a document.  The outer `none` says that it is refused, the inner
one that it looks for a missing field. -/
def evaluate (ops : Operators) (document : Value) : Value → Option (Option Value)
  | .string s =>
    match s.toList with
    | '$' :: path => some (Meaning.read? document path)
    | _ => some (some (.string s))
  | .array items => do
    let values ← evaluateItems ops document items
    return some (.array values)
  | .object fields =>
    if fields.any fun e => isMarked e.1 then
      match fields with
      | [(name, operand)] =>
        if name = "$literal" then some (some operand) else ops name document operand
      | _ => none
    else do
      let fields ← evaluateFields ops document fields
      return some (.object fields)
  | v => some (some v)

/-- The values of the items of an array.  A missing field is null there. -/
def evaluateItems (ops : Operators) (document : Value) : List Value → Option (List Value)
  | [] => some []
  | e :: es => do
    let v ← evaluate ops document e
    let vs ← evaluateItems ops document es
    return v.getD .null :: vs

/-- The values of the fields of a document.  A missing field is left out there. -/
def evaluateFields (ops : Operators) (document : Value) :
    List (String × Value) → Option (List (String × Value))
  | [] => some []
  | (name, e) :: rest => do
    let v ← evaluate ops document e
    let fields ← evaluateFields ops document rest
    return (v.map fun v => (name, v)).toList ++ fields

end

/-- An expression stands for a value in every document, whatever the operators mean. -/
def Denotes (e v : Value) : Prop :=
  ∀ (ops : Operators) (document : Value), evaluate ops document e = some (some v)

/-! ### Values that stand for themselves -/

mutual

/-- Whether nothing inside a value starts with `$`. -/
def Value.isInert : Value → Bool
  | .string s => !isMarked s
  | .array items => inertItems items
  | .object fields => inertFields fields
  | _ => true

/-- Whether nothing inside some values starts with `$`. -/
def inertItems : List Value → Bool
  | [] => true
  | v :: vs => v.isInert && inertItems vs

/-- Whether no name of some fields starts with `$`, and nothing inside them. -/
def inertFields : List (String × Value) → Bool
  | [] => true
  | (name, v) :: rest => !isMarked name && v.isInert && inertFields rest

end

theorem toList_of_isMarked (h : isMarked s = true) : ∃ path, s.toList = '$' :: path := by
  rw [isMarked, beq_iff_eq, head?_eq_some_iff] at h
  exact h

theorem isMarked_cons {path : List Char} (h : s.toList = '$' :: path) : isMarked s = true := by
  rw [isMarked, h]
  rfl

theorem evaluate_string {ops : Operators} {document : Value} (h : isMarked s = false) :
    evaluate ops document (.string s) = some (some (.string s)) := by
  rw [evaluate]
  split
  · rename_i path hpath
    rw [isMarked_cons hpath] at h
    cases h
  · rfl

theorem any_isMarked_of_inertFields (h : inertFields fields = true) :
    fields.any (fun e => isMarked e.1) = false := by
  induction fields with
  | nil => rfl
  | cons e rest ih =>
    obtain ⟨name, v⟩ := e
    simp only [inertFields, Bool.and_eq_true, Bool.not_eq_true'] at h
    rw [any_cons, h.1.1, ih h.2, Bool.or_false]

mutual

theorem evaluate_of_isInert (ops : Operators) (document : Value) :
    ∀ v : Value, v.isInert = true → evaluate ops document v = some (some v)
  | .string s, h => evaluate_string (by simpa [Value.isInert] using h)
  | .array items, h => by
    rw [Value.isInert] at h
    rw [evaluate, evaluateItems_of_inertItems ops document items h]
    rfl
  | .object fields, h => by
    rw [Value.isInert] at h
    rw [evaluate.eq_def]
    simp only [any_isMarked_of_inertFields h]
    rw [evaluateFields_of_inertFields ops document fields h]
    rfl
  | .null, _ | .bool _, _ | .int _, _ | .float _, _ => by rw [evaluate] <;> simp

theorem evaluateItems_of_inertItems (ops : Operators) (document : Value) :
    ∀ vs : List Value, inertItems vs = true → evaluateItems ops document vs = some vs
  | [], _ => by rw [evaluateItems]
  | v :: vs, h => by
    rw [inertItems, Bool.and_eq_true] at h
    rw [evaluateItems, evaluate_of_isInert ops document v h.1,
      evaluateItems_of_inertItems ops document vs h.2]
    rfl

theorem evaluateFields_of_inertFields (ops : Operators) (document : Value) :
    ∀ fields : List (String × Value), inertFields fields = true →
      evaluateFields ops document fields = some fields
  | [], _ => by rw [evaluateFields]
  | (name, v) :: rest, h => by
    rw [inertFields, Bool.and_eq_true, Bool.and_eq_true] at h
    rw [evaluateFields, evaluate_of_isInert ops document v h.1.2,
      evaluateFields_of_inertFields ops document rest h.2]
    rfl

end

/-! ### Values that do not

With operators that are all refused, in a document that has no fields, a value that is not inert never
stands for itself. -/

/-- Operators that are all refused. -/
def refused : Operators := fun _ _ _ => none

theorem walk_empty (path : List String) :
    Value.walk path .empty = some .empty ∨ Value.walk path .empty = none := by
  cases path with
  | nil => exact .inl rfl
  | cons name rest => exact .inr rfl

theorem isMarked_of_evaluate (h : evaluate refused .empty (.string s) = some (some (.string s))) :
    isMarked s = false := by
  rw [← Bool.not_eq_true]
  intro hmarked
  obtain ⟨path, hpath⟩ := toList_of_isMarked hmarked
  rw [evaluate, hpath] at h
  have hread : Value.walk (segments (String.ofList path)) .empty = some (.string s) :=
    Option.some.inj h
  rcases walk_empty (segments (String.ofList path)) with hwalk | hwalk
  · cases hread.symm.trans hwalk
  · cases hread.symm.trans hwalk

/-- An operator stands for something else than the document that it is written as. -/
theorem evaluate_ne_of_isMarked (h : fields.any (fun e => isMarked e.1) = true) :
    evaluate refused .empty (.object fields) ≠ some (some (.object fields)) := by
  intro heq
  rw [evaluate.eq_def] at heq
  simp only at heq
  rw [if_pos h] at heq
  split at heq
  · rename_i name operand
    split at heq
    · have hsize := congrArg (sizeOf ·) (Option.some.inj (Option.some.inj heq))
      simp at hsize
      omega
    · cases heq
  · cases heq

theorem length_evaluateFields_le {ops : Operators} {document : Value}
    {values : List (String × Value)} (h : evaluateFields ops document fields = some values) :
    values.length ≤ fields.length := by
  induction fields generalizing values with
  | nil =>
    rw [evaluateFields] at h
    cases h
    exact Nat.le_refl 0
  | cons e rest ih =>
    obtain ⟨name, e⟩ := e
    obtain ⟨v, hv, h⟩ := Option.bind_eq_some_iff.mp h
    obtain ⟨values', hrest, h⟩ := Option.bind_eq_some_iff.mp h
    cases h
    have hlength := ih hrest
    cases v <;> simp <;> omega

/-- Items that stand for themselves do so one by one. -/
theorem evaluateItems_cons_self {v : Value} {vs : List Value}
    (h : evaluateItems refused .empty (v :: vs) = some (v :: vs)) :
    evaluate refused .empty v = some (some v) ∧ evaluateItems refused .empty vs = some vs := by
  obtain ⟨r, hr, h⟩ := Option.bind_eq_some_iff.mp h
  obtain ⟨rs, hrs, h⟩ := Option.bind_eq_some_iff.mp h
  obtain ⟨hhead, rfl⟩ := cons.inj (Option.some.inj h)
  refine ⟨?_, hrs⟩
  cases r with
  | some r => rw [hr, ← hhead]; rfl
  | none =>
    -- null is not missing
    have hnull : evaluate refused .empty .null = some (some .null) := by rw [evaluate] <;> simp
    have hv : v = .null := hhead.symm
    rw [hv, hnull] at hr
    cases hr

/-- Fields that stand for themselves do so one by one. -/
theorem evaluateFields_cons_self {v : Value} {rest : List (String × Value)}
    (h : evaluateFields refused .empty ((name, v) :: rest) = some ((name, v) :: rest)) :
    evaluate refused .empty v = some (some v) ∧ evaluateFields refused .empty rest = some rest := by
  obtain ⟨r, hr, h⟩ := Option.bind_eq_some_iff.mp h
  obtain ⟨rs, hrs, h⟩ := Option.bind_eq_some_iff.mp h
  have h := Option.some.inj h
  cases r with
  | some r =>
    cases h
    exact ⟨hr, hrs⟩
  | none =>
    -- too few fields are left
    have hlength := length_evaluateFields_le hrs
    rw [show rs = (name, v) :: rest from h, length_cons] at hlength
    omega

mutual

theorem isInert_of_evaluate : ∀ v : Value, evaluate refused .empty v = some (some v) → v.isInert = true
  | .string s, h => by
    rw [Value.isInert, isMarked_of_evaluate h]
    rfl
  | .array items, h => by
    obtain ⟨values, hvalues, h⟩ := Option.bind_eq_some_iff.mp h
    cases h
    rw [Value.isInert]
    exact inertItems_of_evaluate items hvalues
  | .object fields, h => by
    rw [Value.isInert]
    cases hmarked : fields.any fun e => isMarked e.1 with
    | true => exact absurd h (evaluate_ne_of_isMarked hmarked)
    | false =>
      rw [evaluate.eq_def] at h
      simp only [hmarked] at h
      obtain ⟨values, hvalues, h⟩ := Option.bind_eq_some_iff.mp h
      cases h
      exact inertFields_of_evaluate fields hmarked hvalues
  | .null, _ => rfl
  | .bool _, _ => rfl
  | .int _, _ => rfl
  | .float _, _ => rfl

theorem inertItems_of_evaluate : ∀ vs : List Value, evaluateItems refused .empty vs = some vs →
    inertItems vs = true
  | [], _ => rfl
  | v :: vs, h => by
    obtain ⟨hv, hvs⟩ := evaluateItems_cons_self h
    rw [inertItems, isInert_of_evaluate v hv, inertItems_of_evaluate vs hvs]
    rfl

theorem inertFields_of_evaluate : ∀ fields : List (String × Value),
    fields.any (fun e => isMarked e.1) = false → evaluateFields refused .empty fields = some fields →
    inertFields fields = true
  | [], _, _ => rfl
  | (name, v) :: rest, hmarked, h => by
    rw [any_cons, Bool.or_eq_false_iff] at hmarked
    obtain ⟨hv, hrest⟩ := evaluateFields_cons_self h
    rw [inertFields, isInert_of_evaluate v hv, inertFields_of_evaluate rest hmarked.2 hrest, hmarked.1]
    rfl

end

/-- A value stands for itself exactly if nothing inside it starts with `$`. -/
theorem denotes_self_iff (v : Value) : Denotes v v ↔ v.isInert = true :=
  ⟨fun h => isInert_of_evaluate v (h refused .empty),
    fun h ops document => evaluate_of_isInert ops document v h⟩

theorem denotes_literal (v : Value) : Denotes (.field "$literal" v) v := by
  intro ops document
  have hmarked : ([("$literal", v)] : List (String × Value)).any (fun e => isMarked e.1) = true := by
    rw [any_cons, show isMarked "$literal" = true by decide, Bool.true_or]
  rw [Value.field, evaluate.eq_def]
  simp only
  rw [if_pos hmarked, if_pos trivial]

/-! ### The operators of conditions

The operators that conditions are written with are a case: with their meaning, whatever
`Meaning.eval?` says of an expression is what the rule says. -/

/-- The operators that conditions are written with. -/
def Meaning.operators : Operators := fun name document operand =>
  (eval? document (.field name operand)).map some

theorem ne_of_isMarked {op : String} (h : isMarked name = false) (hop : isMarked op = true) :
    name ≠ op := by
  rintro rfl
  rw [h] at hop
  cases hop

theorem applied?_of_not_isMarked (h : isMarked name = false) (values : List Value) :
    Meaning.applied? name values = none := by
  have hne (op : String) : isMarked op = true → name ≠ op := ne_of_isMarked h
  have hcomparison : Meaning.comparison? name = none := by
    simp only [Meaning.comparison?, if_neg (hne "$eq" (by decide)), if_neg (hne "$ne" (by decide)),
      if_neg (hne "$lt" (by decide)), if_neg (hne "$lte" (by decide)),
      if_neg (hne "$gt" (by decide)), if_neg (hne "$gte" (by decide))]
  have harithmetic : Meaning.arithmetic? name = none := by
    simp only [Meaning.arithmetic?, if_neg (hne "$add" (by decide)),
      if_neg (hne "$subtract" (by decide)), if_neg (hne "$multiply" (by decide))]
  rw [Meaning.applied?.eq_def, if_neg (hne "$and" (by decide)), if_neg (hne "$or" (by decide))]
  split
  · exact if_neg (hne "$not" (by decide))
  · simp only [Meaning.appliedBinary?, hcomparison, harithmetic]
    split
    all_goals simp_all [hne "$in" (by decide)]
  · rfl

theorem eval?_field_of_not_isMarked (h : isMarked name = false) (document operand : Value) :
    Meaning.eval? document (.field name operand) = none := by
  have hne (op : String) : isMarked op = true → name ≠ op := ne_of_isMarked h
  rw [Value.field, Meaning.eval?.eq_def]
  simp only [if_neg (hne "$literal" (by decide))]
  split
  · rename_i args
    cases Meaning.evalItems? document args with
    | none => rfl
    | some values => exact applied?_of_not_isMarked h values
  · rename_i first test second yes third no
    exact if_neg fun hcond => hne "$cond" (by decide) hcond.1
  · rfl

mutual

/-- With the operators of conditions, the rule says what `Meaning.eval?` says. -/
theorem evaluate_of_eval? (document : Value) : ∀ e v : Value, Meaning.eval? document e = some v →
    evaluate Meaning.operators document e = some (some v)
  | .string s, v, h => by
    rw [Meaning.eval?] at h
    split at h
    · rename_i path hpath
      rw [evaluate]
      simp only [hpath, h]
    · rename_i hplain
      cases h
      rw [evaluate]
      split
      · rename_i path hpath
        exact absurd hpath (hplain path)
      · rfl
  | .array items, v, h => by
    obtain ⟨values, hvalues, h⟩ := Option.bind_eq_some_iff.mp h
    cases h
    rw [evaluate, evaluateItems_of_evalItems? document items values hvalues]
    rfl
  | .object [], v, h | .object (_ :: _ :: _), v, h => by
    rw [Meaning.eval?.eq_def] at h
    cases h
  | .object [(name, operand)], v, h => by
    cases hmarked : isMarked name with
    | false =>
      rw [show Value.object [(name, operand)] = .field name operand from rfl,
        eval?_field_of_not_isMarked hmarked] at h
      cases h
    | true =>
      by_cases hliteral : name = "$literal"
      · subst hliteral
        rw [Meaning.eval?.eq_def] at h
        cases h
        exact denotes_literal operand _ document
      · rw [evaluate.eq_def]
        have hany : ([(name, operand)] : List (String × Value)).any (fun e => isMarked e.1) = true := by
          rw [any_cons, hmarked, Bool.true_or]
        simp only
        rw [if_pos hany, if_neg hliteral, Meaning.operators, Value.field, h]
        rfl
  | .null, v, h | .bool _, v, h | .int _, v, h | .float _, v, h => by
    rw [Meaning.eval?.eq_def] at h
    cases h
    rw [evaluate] <;> simp

theorem evaluateItems_of_evalItems? (document : Value) : ∀ es vs : List Value,
    Meaning.evalItems? document es = some vs →
    evaluateItems Meaning.operators document es = some vs
  | [], vs, h => by
    rw [Meaning.evalItems?] at h
    cases h
    rw [evaluateItems]
  | e :: es, vs, h => by
    obtain ⟨v, hv, h⟩ := Option.bind_eq_some_iff.mp h
    obtain ⟨rest, hrest, h⟩ := Option.bind_eq_some_iff.mp h
    cases h
    rw [evaluateItems, evaluate_of_eval? document e v hv,
      evaluateItems_of_evalItems? document es rest hrest]
    rfl

end

/-! ### Constants of statements -/

/-- Whether a constant keeps its value inside an expression: texts are guarded, and nothing else. -/
def Value.isGuarded : Value → Bool
  | .string _ => true
  | v => v.isInert

theorem denotes_guarded_iff (v : Value) : Denotes (literal v) v ↔ v.isGuarded = true := by
  cases v with
  | string s =>
    refine iff_of_true ?_ rfl
    cases hmarked : isMarked s with
    | true =>
      rw [isMarked, beq_iff_eq] at hmarked
      rw [literal, if_pos hmarked]
      exact denotes_literal _
    | false =>
      have hhead : ¬s.toList.head? = some '$' := by simpa [isMarked] using hmarked
      rw [literal, if_neg hhead]
      exact fun ops document => evaluate_string hmarked
  | _ => exact denotes_self_iff _

/-- **Constants inside expressions.**  A constant, bound or written, becomes an expression that stands
for it in every document exactly if it is a text or if nothing inside it starts with `$`; the same
holds of each item of a list of constants that a term is looked for in.  In a projection every
constant stands for itself. -/
theorem constants_kept_iff (t : Term) (ts : List Term) :
    (∀ v, t.constant? = some v →
      (∃ e, t.expression = .ok e ∧ (Denotes e v ↔ v.isGuarded = true)) ∧
      ∃ e, t.projected = .ok e ∧ Denotes e v) ∧
    ∀ values, constants? ts = some values →
      ∃ es, (Members.list ts).expression = .ok (.array es) ∧
        List.Forall₂ (fun e v => Denotes e v ↔ v.isGuarded = true) es values := by
  constructor
  · intro v hconstant
    constructor
    · cases t with
      | const value | param _ value =>
        cases hconstant
        exact ⟨literal v, by rw [Term.expression], denotes_guarded_iff v⟩
      | _ => cases hconstant
    · refine ⟨.field "$literal" v, ?_, denotes_literal v⟩
      rw [Term.projected, hconstant]
  · intro values hvalues
    refine ⟨values.map literal, ?_, ?_⟩
    · rw [Members.expression, hvalues]
    · rw [List.forall₂_map_left_iff]
      exact List.forall₂_same.mpr fun v _ => denotes_guarded_iff v

/-- A text inside a bound array reads the document. -/
theorem bound_array_reads_document :
    ∃ e, (Term.param 0 (.array [.string "$x"])).expression = .ok e ∧
      ¬Denotes e (.array [.string "$x"]) := by
  obtain ⟨e, he, hiff⟩ := ((constants_kept_iff (.param 0 (.array [.string "$x"])) []).1 _ rfl).1
  refine ⟨e, he, fun h => ?_⟩
  have hguarded := hiff.mp h
  exact absurd hguarded (by decide)

end DocSql
