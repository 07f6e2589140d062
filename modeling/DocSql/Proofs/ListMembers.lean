import DocSql.Proofs.Steps
import DocSql.Term.Expression

/-! # The lists that terms are looked for in

The terms of an IN list are written one behind the other, and a parameter that is bound to a list
stands for the items of that list.  A list of constants is written value by value, and there a bound
list is opened.  Any other list is written term by term, and there a bound list stays one item: a
mixed list is what it should be exactly if no parameter in it is bound to a list
(`bound_lists_open_iff`).
-/
namespace DocSql
open Compiled List

variable {ts : List Term} {t : Term}

namespace Term

/-- The items of the list that a parameter is bound to. -/
def boundItems? : Term → Option (List Value)
  | .param _ (.array items) => some items
  | _ => none

/-- The values that a constant adds to a list: the items of a bound list, or its own value. -/
def listedValues (t : Term) : List Value := t.boundItems?.getD t.constant?.toList

/-- The expressions that a term adds to a list: those of the items of a bound list, or its own. -/
def spread (t : Term) : Compiled (List Value) :=
  match t.boundItems? with
  | some items => .ok (items.map literal)
  | none => do
    let e ← t.expression
    return [e]

/-- A bound list is a constant. -/
theorem eq_param_of_boundItems {items : List Value} (h : t.boundItems? = some items) :
    ∃ i, t = .param i (.array items) := by
  unfold boundItems? at h
  split at h
  · cases h
    exact ⟨_, rfl⟩
  · cases h

/-- Only a constant text can be written as a pattern. -/
theorem likeRegex_eq_ok {regex : String} :
    t.likeRegex = .ok regex ↔ ∃ s, t.constant? = some (.string s) ∧ DocSql.likeRegex s = regex := by
  unfold likeRegex
  split <;> simp_all [unsupported]

theorem expression_of_constant {v : Value} (h : t.constant? = some v) :
    t.expression = .ok (literal v) := by
  cases t with
  | const | param =>
    cases h
    rw [expression]
  | _ => cases h

end Term

/-- The list with every bound list opened in place: what each of the terms adds, in their order. -/
def spreadAll : List Term → Compiled (List Value)
  | [] => .ok []
  | t :: ts => do
    let first ← t.spread
    let rest ← spreadAll ts
    return first ++ rest

/-! ### Lists of constants -/

theorem constants?_cons (t : Term) (ts : List Term) : constants? (t :: ts) = do
    let _ ← t.constant?
    let rest ← constants? ts
    return t.listedValues ++ rest := by
  rw [constants?.eq_def]
  dsimp only
  split
  · rfl
  · rename_i hplain
    have hbound : t.boundItems? = none := by
      rw [Option.eq_none_iff_forall_ne_some]
      intro items hitems
      obtain ⟨i, rfl⟩ := Term.eq_param_of_boundItems hitems
      exact hplain i items rfl
    rw [Term.listedValues, hbound]
    cases t.constant? <;> rfl

/-- A list has values where all of its terms are constants, and then it has the values of each. -/
theorem constants?_eq_some_iff {values : List Value} : constants? ts = some values ↔
      (∀ t ∈ ts, t.constant?.isSome = true) ∧ values = ts.flatMap Term.listedValues := by
  induction ts generalizing values with
  | nil =>
    refine ⟨fun h => ⟨forall_mem_nil _, ?_⟩, fun h => ?_⟩
    · exact (Option.some.inj h).symm
    · rw [h.2]
      rfl
  | cons t ts ih =>
    rw [constants?_cons, forall_mem_cons, flatMap_cons]
    constructor
    · intro h
      obtain ⟨v, hv, h⟩ := Option.bind_eq_some_iff.mp h
      obtain ⟨rest, hrest, h⟩ := Option.bind_eq_some_iff.mp h
      cases h
      obtain ⟨hall, rfl⟩ := ih.mp hrest
      exact ⟨⟨by rw [hv]; rfl, hall⟩, rfl⟩
    · rintro ⟨⟨hfirst, hall⟩, rfl⟩
      obtain ⟨v, hv⟩ := Option.isSome_iff_exists.mp hfirst
      rw [hv, ih.mpr ⟨hall, rfl⟩]
      rfl

theorem constants?_eq_none_iff : constants? ts = none ↔ ∃ t ∈ ts, t.constant? = none := by
  rw [Option.eq_none_iff_forall_ne_some]
  constructor
  · intro h
    by_contra hall
    have hconstant : ∀ t ∈ ts, t.constant?.isSome = true := by
      intro t ht
      rw [Option.isSome_iff_ne_none]
      exact fun hnone => hall ⟨t, ht, hnone⟩
    exact h _ (constants?_eq_some_iff.mpr ⟨hconstant, rfl⟩)
  · rintro ⟨t, ht, hnone⟩ values h
    have hsome := (constants?_eq_some_iff.mp h).1 t ht
    rw [hnone] at hsome
    cases hsome

/-! ### Lists of expressions -/

theorem Term.spread_of_constant (h : t.constant?.isSome = true) :
    t.spread = .ok (t.listedValues.map literal) := by
  obtain ⟨v, hv⟩ := Option.isSome_iff_exists.mp h
  unfold spread listedValues
  cases t.boundItems? with
  | some items => rfl
  | none => simp [Term.expression_of_constant hv, hv]

/-- A list of constants is opened value by value. -/
theorem spreadAll_of_constants (h : ∀ t ∈ ts, t.constant?.isSome = true) :
    spreadAll ts = .ok ((ts.flatMap Term.listedValues).map literal) := by
  induction ts with
  | nil => rfl
  | cons t ts ih =>
    obtain ⟨hfirst, hrest⟩ := forall_mem_cons.mp h
    rw [spreadAll, Term.spread_of_constant hfirst, ih hrest, flatMap_cons, map_append]
    rfl

/-- Without bound lists there is nothing to open. -/
theorem spreadAll_of_unbound (h : ∀ t ∈ ts, t.boundItems? = none) :
    spreadAll ts = termExpressions ts := by
  induction ts with
  | nil => rfl
  | cons t ts ih =>
    obtain ⟨hfirst, hrest⟩ := forall_mem_cons.mp h
    rw [spreadAll, termExpressions, ih hrest, Term.spread, hfirst]
    cases t.expression <;> rfl

/-- A term adds its expression alone, or the items of the list that is its expression. -/
theorem Term.spread_cases {e : Value} (h : t.expression = .ok e) :
    (t.boundItems? = none ∧ t.spread = .ok [e]) ∨
      ∃ items, e = .array items ∧ t.spread = .ok (items.map literal) := by
  unfold spread
  cases hitems : t.boundItems? with
  | none => exact .inl ⟨rfl, by simp [h]⟩
  | some items =>
    obtain ⟨i, rfl⟩ := Term.eq_param_of_boundItems hitems
    rw [Term.expression] at h
    cases h
    exact .inr ⟨items, rfl, rfl⟩

/-- What is written term by term can be opened. -/
theorem exists_spreadAll {es : List Value} (h : termExpressions ts = .ok es) :
    ∃ opened, spreadAll ts = .ok opened := by
  induction ts generalizing es with
  | nil => exact ⟨[], rfl⟩
  | cons t ts ih =>
    obtain ⟨e, he, es, hes, -⟩ := bind₂_eq_ok.mp h
    obtain ⟨opened, hopened⟩ := ih hes
    rcases Term.spread_cases he with ⟨-, hspread⟩ | ⟨items, -, hspread⟩
    · exact ⟨_, by rw [spreadAll, hspread, hopened]; rfl⟩
    · exact ⟨_, by rw [spreadAll, hspread, hopened]; rfl⟩

/-- No item of a list is the list. -/
theorem literal_ne_array {items : List Value} {v : Value} (h : v ∈ items) :
    literal v ≠ .array items := by
  intro heq
  cases v with
  | array inner =>
    cases heq
    have hsize := sizeOf_lt_of_mem h
    simp only [Value.array.sizeOf_spec] at hsize
    omega
  | string s =>
    rw [literal] at heq
    split at heq <;> cases heq
  | _ => cases heq

/-- A list of expressions, behind others that are left over, is the opened list only if nothing is
left over and no list is bound.  Once a bound list has been opened, an expression is always left
over: to make up for it, some list would have to hold itself. -/
theorem unbound_of_spreadAll {es opened : List Value} (hes : termExpressions ts = .ok es)
    (hopened : spreadAll ts = .ok opened) (left : List Value) (h : left ++ es = opened) :
    left = [] ∧ ∀ t ∈ ts, t.boundItems? = none := by
  induction ts generalizing es opened left with
  | nil =>
    cases hes
    cases hopened
    exact ⟨by simpa using h, forall_mem_nil _⟩
  | cons t ts ih =>
    obtain ⟨e, he, es', hes', rfl⟩ := bind₂_eq_ok.mp hes
    obtain ⟨first, hfirst, rest, hrest, rfl⟩ := bind₂_eq_ok.mp hopened
    -- with something left over behind the terms so far, the rest cannot be made up for
    have hbehind (more : List Value) (hmore : more ++ e :: es' = rest) : False := by
      obtain ⟨hnil, -⟩ := ih hes' hrest (more ++ [e]) (by simpa using hmore)
      simp at hnil
    rcases Term.spread_cases he with ⟨hunbound, hspread⟩ | ⟨items, rfl, hspread⟩
    · cases hspread.symm.trans hfirst
      cases left with
      | nil =>
        rw [nil_append, singleton_append, cons.injEq] at h
        obtain ⟨-, hts⟩ := ih hes' hrest [] h.2
        exact ⟨rfl, forall_mem_cons.mpr ⟨hunbound, hts⟩⟩
      | cons v left =>
        rw [cons_append, singleton_append, cons.injEq] at h
        exact (hbehind left h.2).elim
    · cases hspread.symm.trans hfirst
      rcases append_eq_append_iff.mp h with ⟨beyond, hbeyond, h⟩ | ⟨more, -, h⟩
      · cases beyond with
        | nil => exact (hbehind [] h).elim
        | cons v beyond =>
          -- the list itself stands where one of its items does
          rw [cons_append, cons.injEq] at h
          have hmem : v ∈ items.map literal := by
            rw [hbeyond]
            exact mem_append_right _ mem_cons_self
          obtain ⟨item, hitem, hv⟩ := mem_map.mp hmem
          exact absurd (hv.trans h.1.symm) (literal_ne_array hitem)
      · exact (hbehind more h.symm).elim

/-! ### Tests whether a term is in a list -/

/-- **Bound lists in an IN list.**  The test whether a term is in a list is an expression over the
operand and a list of expressions.  That list is the one with every bound list opened in place
exactly if all terms are constants or no parameter is bound to a list; beside a term that is no
constant, each term is written as one item, a bound list as well.  The filter of the test has the
values of the terms, with every bound list opened, if a field is tested and all terms are constants,
and holds the expression otherwise. -/
theorem bound_lists_open_iff (t : Term) (ts : List Term) (negated : Bool) :
    (∀ e, (Condition.member t (.list ts) negated).expression = .ok e →
      ∃ operand list opened, t.expression = .ok operand ∧
        e = notExpression negated (binary "$in" operand (.array list)) ∧
        spreadAll ts = .ok opened ∧
        (list = opened ↔
          (∀ u ∈ ts, u.constant?.isSome = true) ∨ ∀ u ∈ ts, u.boundItems? = none) ∧
        ((∃ u ∈ ts, u.constant? = none) → termExpressions ts = .ok list)) ∧
    ∀ f, (Condition.member t (.list ts) negated).filter = .ok f →
      (∃ field, t.fieldPath? = some field ∧ (∀ u ∈ ts, u.constant?.isSome = true) ∧
        f = .field field (.field (if negated then "$nin" else "$in")
          (.array (ts.flatMap Term.listedValues)))) ∨
      ((t.fieldPath? = none ∨ ∃ u ∈ ts, u.constant? = none) ∧
        ∃ e, (Condition.member t (.list ts) negated).expression = .ok e ∧
          f = .field "$expr" e) := by
  constructor
  · intro e h
    rw [Condition.expression] at h
    obtain ⟨members, hmembers, h⟩ := Compiled.bind_eq_ok.mp h
    obtain ⟨operand, hoperand, rfl⟩ := Compiled.bind₁_eq_ok.mp h
    rw [Members.expression] at hmembers
    split at hmembers
    · rename_i values hvalues
      obtain ⟨hconstant, rfl⟩ := constants?_eq_some_iff.mp hvalues
      cases hmembers
      refine ⟨operand, _, _, hoperand, rfl, spreadAll_of_constants hconstant,
        iff_of_true rfl (.inl hconstant), fun hother => ?_⟩
      rw [constants?_eq_none_iff.mpr hother] at hvalues
      cases hvalues
    · rename_i hnone
      obtain ⟨list, hlist, hmembers⟩ := Compiled.bind_eq_ok.mp hmembers
      cases hmembers
      obtain ⟨opened, hopened⟩ := exists_spreadAll hlist
      refine ⟨operand, list, opened, hoperand, rfl, hopened, ?_, fun _ => hlist⟩
      constructor
      · intro heq
        exact .inr (unbound_of_spreadAll hlist hopened [] heq).2
      · rintro (hconstant | hunbound)
        · rw [constants?_eq_some_iff.mpr ⟨hconstant, rfl⟩] at hnone
          cases hnone
        · rw [spreadAll_of_unbound hunbound, hlist] at hopened
          exact Except.ok.inj hopened
  · intro f h
    rw [Condition.filter.eq_def] at h
    dsimp only [Condition.testFilter] at h
    split at h
    · rename_i field values hfield hvalues
      obtain ⟨hconstant, rfl⟩ := constants?_eq_some_iff.mp hvalues
      cases h
      exact .inl ⟨field, hfield, hconstant, rfl⟩
    · rename_i hother
      obtain ⟨e, he, rfl⟩ := Compiled.bind₁_eq_ok.mp h
      refine .inr ⟨?_, e, he, rfl⟩
      cases hfield : t.fieldPath? with
      | none => exact .inl rfl
      | some field =>
        refine .inr (constants?_eq_none_iff.mp ?_)
        rw [Option.eq_none_iff_forall_ne_some]
        exact fun values hvalues => hother field values hfield hvalues

namespace ListMembers

/-- `(%s, b)`, with the parameter bound to a list of two numbers. -/
def mixed : List Term := [.param 0 (.array [.int 1, .int 2]), .column ⟨"t", "b", "b"⟩]

/-- The bound list is one item of the list that is written, and is two of the one that is meant. -/
theorem mixed_not_opened :
    (Condition.member (.column ⟨"t", "a", "a"⟩) (.list mixed) false).expression =
      .ok (binary "$in" (.path "a") (.array [.array [.int 1, .int 2], .path "b"])) ∧
    spreadAll mixed = .ok [.int 1, .int 2, .path "b"] ∧
    ¬((∀ u ∈ mixed, u.constant?.isSome = true) ∨ ∀ u ∈ mixed, u.boundItems? = none) := by
  have hwritten : (Condition.member (.column ⟨"t", "a", "a"⟩) (.list mixed) false).expression =
      .ok (binary "$in" (.path "a") (.array [.array [.int 1, .int 2], .path "b"])) := rfl
  refine ⟨hwritten, rfl, fun hopen => ?_⟩
  obtain ⟨operand, list, opened, -, he, hopened, hiff, -⟩ :=
    (bound_lists_open_iff (.column ⟨"t", "a", "a"⟩) mixed false).1 _ hwritten
  cases he
  cases hopened
  cases hiff.mpr hopen

end ListMembers

end DocSql
