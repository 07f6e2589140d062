import DocSql.Proofs.ExactNegation
import DocSql.Proofs.ListMembers
import DocSql.Proofs.ReadingTraits

/-! # The shape of conditions and their filters

What a term is looked for in is a list, or a sub-select; it can stand deep in a condition, below CASE
terms and in the operands of tests (`Condition.Looks`).  A conjunction or disjunction that is read
has two parts at least (`Condition.Branches`).  Both are traits of reading.  From them follows the
shape of a filter: a sub-select that is not registered has none, and the filter of a condition is a
document of one field.
-/
namespace DocSql
open Compiled List

variable {c : Condition} {cs cs' : List Condition} {path : String}

/-! ### What terms are looked for in -/

namespace Members

/-- The members are written out. -/
def Listed : Members → Prop
  | .list _ => True
  | _ => False

/-- The members are no field that an earlier stage has made. -/
def Unnested : Members → Prop
  | .nested _ => False
  | _ => True

end Members

mutual

/-- Everywhere in the term, what another term is looked for in has a property. -/
def Term.Looks (P : Members → Prop) : Term → Prop
  | .compare lhs _ rhs => lhs.Looks P ∧ rhs.Looks P
  | .aggregate _ _ arg => arg.Looks P
  | .dateTrunc _ arg => arg.Looks P
  | .arith _ left right => left.Looks P ∧ right.Looks P
  | .caseOf arms => arms.Looks P
  | _ => True

/-- The same of CASE branches. -/
def Arms.Looks (P : Members → Prop) : Arms → Prop
  | .done => True
  | .otherwise t => t.Looks P
  | .arm c t rest => c.Looks P ∧ t.Looks P ∧ rest.Looks P

/-- The same of a condition. -/
def Condition.Looks (P : Members → Prop) : Condition → Prop
  | .all cs => AllLook P cs
  | .any cs => AllLook P cs
  | .compare lhs _ rhs => lhs.Looks P ∧ rhs.Looks P
  | .member t m _ => t.Looks P ∧ P m ∧ m.Looks P
  | .isNull t _ => t.Looks P
  | .between t low high _ => t.Looks P ∧ low.Looks P ∧ high.Looks P
  | .like t pattern _ _ => t.Looks P ∧ pattern.Looks P
  | .truth t _ => t.Looks P

/-- The same of what a term is looked for in. -/
def Members.Looks (P : Members → Prop) : Members → Prop
  | .list ts => TermsLook P ts
  | _ => True

/-- The same of a list of terms. -/
def TermsLook (P : Members → Prop) : List Term → Prop
  | [] => True
  | t :: ts => t.Looks P ∧ TermsLook P ts

/-- The same of a list of conditions. -/
def AllLook (P : Members → Prop) : List Condition → Prop
  | [] => True
  | c :: cs => c.Looks P ∧ AllLook P cs

end

section

variable {P Q : Members → Prop}

theorem termsLook_iff {ts : List Term} : TermsLook P ts ↔ ∀ t ∈ ts, t.Looks P := by
  induction ts with
  | nil => simp [TermsLook]
  | cons t ts ih => simp [TermsLook, ih]

theorem allLook_iff : AllLook P cs ↔ ∀ c ∈ cs, c.Looks P := by
  induction cs with
  | nil => simp [AllLook]
  | cons c cs ih => simp [AllLook, ih]

theorem Condition.looks_conjuncts : AllLook P c.conjuncts ↔ c.Looks P := by
  unfold conjuncts
  split
  · rw [Looks]
  · simp [AllLook]

theorem Condition.looks_disjuncts : AllLook P c.disjuncts ↔ c.Looks P := by
  unfold disjuncts
  split
  · rw [Looks]
  · simp [AllLook]

theorem allLook_append : AllLook P (cs ++ cs') ↔ AllLook P cs ∧ AllLook P cs' := by
  simp only [allLook_iff, forall_mem_append]

mutual

theorem Condition.looks_flipped : ∀ {c : Condition}, c.Looks P → c.flipped.Looks P
  | .all cs, h
  | .any cs, h => by simpa only [Condition.flipped, Condition.Looks] using allLook_flippedAll h
  | .compare .., h | .member .., h | .isNull .., h | .between .., h | .like .., h | .truth .., h => h

theorem allLook_flippedAll : ∀ {cs : List Condition}, AllLook P cs → AllLook P (flippedAll cs)
  | [], _ => trivial
  | _ :: _, h => ⟨Condition.looks_flipped h.1, allLook_flippedAll h.2⟩

end

/-- A property of lists and sub-selects holds of all that terms are looked for in. -/
def Trait.looks (r : Reading) (hlist : ∀ ts, P (.list ts)) (hsubselect : ∀ s, P (.subselect s)) :
    Trait r where
  term := Term.Looks P
  arms := Arms.Looks P
  condition := Condition.Looks P
  members m := P m ∧ m.Looks P
  column _ := trivial
  field _ := trivial
  const _ := trivial
  param _ _ := trivial
  countAll := trivial
  compare _ _ _ hlhs hrhs := ⟨hlhs, hrhs⟩
  aggregate _ _ _ h := h
  dateTrunc _ _ h := h
  arith _ _ _ hleft hright := ⟨hleft, hright⟩
  caseOf h := h
  done := trivial
  otherwise h := h
  arm hc ht hrest := ⟨hc, ht, hrest⟩
  list h := ⟨hlist _, termsLook_iff.mpr h⟩
  subselect _ := ⟨hsubselect _, trivial⟩
  tested h := h
  truth _ h := h
  isNull _ h := h
  between _ ht hlow hhigh := ⟨ht, hlow, hhigh⟩
  like _ _ ht hp := ⟨ht, hp⟩
  member _ ht hm := ⟨ht, hm⟩
  negate hc h := by
    rw [Condition.eq_flipped_of_negate h]
    exact Condition.looks_flipped hc
  and hlhs hrhs :=
    allLook_append.mpr ⟨Condition.looks_conjuncts.mpr hlhs, Condition.looks_conjuncts.mpr hrhs⟩
  or hlhs hrhs :=
    allLook_append.mpr ⟨Condition.looks_disjuncts.mpr hlhs, Condition.looks_disjuncts.mpr hrhs⟩

end

/-- Reading makes no reference to a field of a sub-select. -/
theorem Reading.unnested_condition {r : Reading} {tokens : List Token}
    (h : r.condition tokens = .ok c) : c.Looks Members.Unnested :=
  Trait.condition_read (T := Trait.looks r (fun _ => trivial) (fun _ => trivial)) h

/-! ### Parts of conjunctions -/

mutual

/-- Every conjunction and disjunction has two parts at least. -/
def Condition.Branches : Condition → Prop
  | .all cs => 2 ≤ cs.length ∧ AllBranch cs
  | .any cs => 2 ≤ cs.length ∧ AllBranch cs
  | _ => True

/-- The same of a list of conditions. -/
def AllBranch : List Condition → Prop
  | [] => True
  | c :: cs => c.Branches ∧ AllBranch cs

end

theorem allBranch_iff : AllBranch cs ↔ ∀ c ∈ cs, c.Branches := by
  induction cs with
  | nil => simp [AllBranch]
  | cons c cs ih => simp [AllBranch, ih]

theorem allBranch_append : AllBranch (cs ++ cs') ↔ AllBranch cs ∧ AllBranch cs' := by
  simp only [allBranch_iff, forall_mem_append]

namespace Condition

theorem Branches.conjuncts (h : c.Branches) : AllBranch c.conjuncts ∧ 1 ≤ c.conjuncts.length := by
  unfold Condition.conjuncts
  split
  · rw [Branches] at h
    exact ⟨h.2, by omega⟩
  · exact ⟨⟨h, trivial⟩, Nat.le_refl _⟩

theorem Branches.disjuncts (h : c.Branches) : AllBranch c.disjuncts ∧ 1 ≤ c.disjuncts.length := by
  unfold Condition.disjuncts
  split
  · rw [Branches] at h
    exact ⟨h.2, by omega⟩
  · exact ⟨⟨h, trivial⟩, Nat.le_refl _⟩

/-- Conditions that are joined have one part at least each. -/
theorem branches_join (h : AllBranch cs ∧ 1 ≤ cs.length) (h' : AllBranch cs' ∧ 1 ≤ cs'.length) :
    2 ≤ (cs ++ cs').length ∧ AllBranch (cs ++ cs') := by
  refine ⟨?_, allBranch_append.mpr ⟨h.1, h'.1⟩⟩
  rw [length_append]
  omega

end Condition

theorem length_flippedAll (cs : List Condition) : (flippedAll cs).length = cs.length := by
  induction cs with
  | nil => rfl
  | cons c cs ih => simp [flippedAll, ih]

mutual

theorem Condition.branches_flipped : ∀ {c : Condition}, c.Branches → c.flipped.Branches
  | .all cs, h | .any cs, h => by
    rw [Condition.flipped, Condition.Branches, length_flippedAll]
    exact ⟨h.1, allBranch_flippedAll h.2⟩
  | .compare .., _ | .member .., _ | .isNull .., _ | .between .., _ | .like .., _ | .truth .., _ =>
    trivial

theorem allBranch_flippedAll : ∀ {cs : List Condition}, AllBranch cs → AllBranch (flippedAll cs)
  | [], _ => trivial
  | _ :: _, h => ⟨Condition.branches_flipped h.1, allBranch_flippedAll h.2⟩

end

/-- Conjunctions and disjunctions have two parts at least. -/
def Trait.branches (r : Reading) : Trait r where
  term _ := True
  arms _ := True
  condition := Condition.Branches
  members _ := True
  column _ := trivial
  field _ := trivial
  const _ := trivial
  param _ _ := trivial
  countAll := trivial
  compare _ _ _ _ _ := trivial
  aggregate _ _ _ _ := trivial
  dateTrunc _ _ _ := trivial
  arith _ _ _ _ _ := trivial
  caseOf _ := trivial
  done := trivial
  otherwise _ := trivial
  arm _ _ _ := trivial
  list _ := trivial
  subselect _ := trivial
  tested _ := trivial
  truth _ _ := trivial
  isNull _ _ := trivial
  between _ _ _ _ := trivial
  like _ _ _ _ := trivial
  member _ _ _ := trivial
  negate hc h := by
    rw [Condition.eq_flipped_of_negate h]
    exact Condition.branches_flipped hc
  and hlhs hrhs := Condition.branches_join hlhs.conjuncts hrhs.conjuncts
  or hlhs hrhs := Condition.branches_join hlhs.disjuncts hrhs.disjuncts

theorem Reading.branches_condition {r : Reading} {tokens : List Token}
    (h : r.condition tokens = .ok c) : c.Branches :=
  Trait.condition_read (T := Trait.branches r) h

/-! ### Conditions that can be written -/

section

variable {P : Members → Prop}

theorem Term.looks_of_constant {t : Term} {value : Value} (h : t.constant? = some value) :
    t.Looks P := by
  cases t <;> trivial

theorem Term.looks_of_fieldPath {t : Term} (h : t.fieldPath? = some path) : t.Looks P := by
  cases t <;> trivial

theorem Term.looks_of_likeRegex {t : Term} {regex : String} (h : t.likeRegex = .ok regex) :
    t.Looks P := by
  obtain ⟨s, hconstant, -⟩ := Term.likeRegex_eq_ok.mp h
  exact looks_of_constant hconstant

theorem termsLook_of_constants {ts : List Term} {values : List Value}
    (h : constants? ts = some values) : TermsLook P ts := by
  obtain ⟨hconstant, -⟩ := constants?_eq_some_iff.mp h
  clear h
  induction ts with
  | nil => trivial
  | cons t ts ih =>
    obtain ⟨hfirst, hrest⟩ := forall_mem_cons.mp hconstant
    obtain ⟨value, hvalue⟩ := Option.isSome_iff_exists.mp hfirst
    exact ⟨Term.looks_of_constant hvalue, ih hrest⟩

mutual

/-- A term has an expression only if no sub-select stands in it that has no field. -/
theorem Term.listed_of_expression : ∀ {t : Term} {e : Value}, t.expression = .ok e →
    t.Looks Members.Unnested → t.Looks Members.Listed
  | .column _, _, _, _ | .field _, _, _, _ | .const _, _, _, _ | .param _ _, _, _, _
  | .countAll, _, _, _ => trivial
  | .aggregate .., _, h, _ => by
    cases h
  | .compare lhs op rhs, _, h, hlooks | .arith op lhs rhs, _, h, hlooks => by
    obtain ⟨l, hl, r, hr, -⟩ := bind₂_eq_ok.mp h
    exact ⟨lhs.listed_of_expression hl hlooks.1, rhs.listed_of_expression hr hlooks.2⟩
  | .dateTrunc unit arg, _, h, hlooks => by
    obtain ⟨a, ha, -⟩ := bind_eq_ok.mp h
    exact arg.listed_of_expression ha hlooks
  | .caseOf arms, _, h, hlooks => by
    rw [Term.expression] at h
    exact arms.listed_of_expression h hlooks

theorem Arms.listed_of_expression : ∀ {arms : Arms} {e : Value}, arms.expression = .ok e →
    arms.Looks Members.Unnested → arms.Looks Members.Listed
  | .done, _, _, _ => trivial
  | .otherwise t, _, h, hlooks => by
    exact t.listed_of_expression h hlooks
  | .arm c t rest, _, h, hlooks => by
    obtain ⟨r, hr, e, he, x, hx, -⟩ := bind₃_eq_ok.mp h
    exact ⟨c.listed_of_expression he hlooks.1, t.listed_of_expression hx hlooks.2.1,
      rest.listed_of_expression hr hlooks.2.2⟩

theorem Condition.listed_of_expression : ∀ {c : Condition} {e : Value}, c.expression = .ok e →
    c.Looks Members.Unnested → c.Looks Members.Listed
  | .all cs, _, h, hlooks | .any cs, _, h, hlooks => by
    obtain ⟨es, hes, -⟩ := bind_eq_ok.mp h
    exact allListed_of_expressions hes hlooks
  | .compare lhs op rhs, _, h, hlooks => by
    obtain ⟨l, hl, r, hr, -⟩ := bind₂_eq_ok.mp h
    exact ⟨lhs.listed_of_expression hl hlooks.1, rhs.listed_of_expression hr hlooks.2⟩
  | .member t m negated, _, h, hlooks => by
    obtain ⟨list, hlist, e, he, -⟩ := bind₂_eq_ok.mp h
    obtain ⟨ht, hm, hinner⟩ := hlooks
    exact ⟨t.listed_of_expression he ht, m.listed_of_expression hlist hm hinner⟩
  | .isNull t negated, _, h, hlooks | .truth t negated, _, h, hlooks => by
    obtain ⟨e, he, -⟩ := bind_eq_ok.mp h
    exact t.listed_of_expression he hlooks
  | .between t low high negated, _, h, hlooks => by
    obtain ⟨e, he, l, hl, u, hu, -⟩ := bind₃_eq_ok.mp h
    exact ⟨t.listed_of_expression he hlooks.1, low.listed_of_expression hl hlooks.2.1,
      high.listed_of_expression hu hlooks.2.2⟩
  | .like t pattern ignoreCase negated, _, h, hlooks => by
    obtain ⟨e, he, regex, hregex, -⟩ := bind₂_eq_ok.mp h
    exact ⟨t.listed_of_expression he hlooks.1, Term.looks_of_likeRegex hregex⟩

theorem Members.listed_of_expression : ∀ {m : Members} {e : Value}, m.expression = .ok e →
    m.Unnested → m.Looks Members.Unnested → m.Listed ∧ m.Looks Members.Listed
  | .list ts, _, h, _, hlooks => by
    refine ⟨trivial, ?_⟩
    rw [Members.expression] at h
    split at h
    · rename_i hconstants
      exact termsLook_of_constants hconstants
    · obtain ⟨es, hes, -⟩ := bind_eq_ok.mp h
      exact termsListed_of_expressions hes hlooks
  | .subselect _, _, h, _, _ => by
    cases h

theorem termsListed_of_expressions : ∀ {ts : List Term} {es : List Value},
    termExpressions ts = .ok es → TermsLook Members.Unnested ts → TermsLook Members.Listed ts
  | [], _, _, _ => trivial
  | t :: ts, _, h, hlooks => by
    obtain ⟨e, he, es, hes, -⟩ := bind₂_eq_ok.mp h
    exact ⟨t.listed_of_expression he hlooks.1, termsListed_of_expressions hes hlooks.2⟩

theorem allListed_of_expressions : ∀ {cs : List Condition} {es : List Value},
    expressions cs = .ok es → AllLook Members.Unnested cs → AllLook Members.Listed cs
  | [], _, _, _ => trivial
  | c :: cs, _, h, hlooks => by
    obtain ⟨e, he, es, hes, -⟩ := bind₂_eq_ok.mp h
    exact ⟨c.listed_of_expression he hlooks.1, allListed_of_expressions hes hlooks.2⟩

end

end

/-! ### The field of a filter -/

theorem length_filters : ∀ {cs : List Condition} {vs : List Value}, filters cs = .ok vs →
    vs.length = cs.length
  | [], _, h => by
    cases h
    rfl
  | _ :: _, _, h => by
    obtain ⟨v, -, vs, hvs, rfl⟩ := bind₂_eq_ok.mp h
    rw [length_cons, length_cons, length_filters hvs]

namespace Condition

variable {v : Value}

/-- The fields that a single test is about. -/
def fields : Condition → List String
  | .all _ | .any _ => []
  | .compare lhs _ rhs => lhs.fieldPath?.toList ++ rhs.fieldPath?.toList
  | .member t _ _ | .isNull t _ | .between t _ _ _ | .like t _ _ _ | .truth t _ =>
    t.fieldPath?.toList

/-- A field is tested against constants. -/
structure Direct (c : Condition) (path : String) : Prop where
  mem : path ∈ c.fields
  listed : c.Looks Members.Listed

/-- What the filter of a condition can be: the filters of its parts, an expression, or a test of one
of its fields, or of what stands in that field. -/
inductive Renders : Condition → Value → Prop
  | all {cs : List Condition} {items : List Value} (parts : filters cs = .ok items) :
    Renders (.all cs) (.field "$and" (.array items))
  | any {cs : List Condition} {items : List Value} (parts : filters cs = .ok items) :
    Renders (.any cs) (.field "$or" (.array items))
  | expression {c : Condition} {e : Value} (written : c.expression = .ok e) :
    Renders c (.field "$expr" e)
  | field {c : Condition} {path : String} (test : Fields) (direct : c.Direct path) :
    Renders c (.field path (.object test))
  | inside {c : Condition} {path : String} (sub : String) (test : Fields) (direct : c.Direct path) :
    Renders c (.field (path ++ "." ++ sub) (.object test))

theorem renders_expressionFilter (h : c.expressionFilter = .ok v) : c.Renders v := by
  obtain ⟨e, he, rfl⟩ := bind₁_eq_ok.mp h
  exact .expression he

theorem Direct.renders_compareField (h : c.Direct path) (op : Comparison) (value : Value) :
    c.Renders (compareField path op value) := by
  unfold compareField
  split
  · exact .inside _ _ h
  · exact .field _ h

theorem Direct.renders_not (h : c.Direct path) (test : Fields) (negated : Bool) :
    c.Renders (.field path (if negated then .field "$not" (.object test) else .object test)) := by
  cases negated with
  | false => exact .field test h
  | true => exact .field [("$not", .object test)] h

theorem renders_testFilter (h : c.testFilter = .ok v) : c.Renders v := by
  unfold testFilter at h
  split at h
  · split at h
    · rename_i hfield hconstant
      cases h
      refine Direct.renders_compareField ?_ _ _
      exact ⟨by simp [fields, hfield], Term.looks_of_fieldPath hfield, Term.looks_of_constant hconstant⟩
    · rename_i hfield hconstant _
      cases h
      refine Direct.renders_compareField ?_ _ _
      exact ⟨by simp [fields, hfield], Term.looks_of_constant hconstant, Term.looks_of_fieldPath hfield⟩
    · exact renders_expressionFilter h
  · split at h
    · rename_i hfield hconstants
      cases h
      exact .field _ ⟨by simp [fields, hfield], Term.looks_of_fieldPath hfield, trivial,
        termsLook_of_constants hconstants⟩
    · exact renders_expressionFilter h
  · split at h
    · rename_i hfield
      cases h
      exact .field _ ⟨by simp [fields, hfield], Term.looks_of_fieldPath hfield⟩
    · exact renders_expressionFilter h
  · split at h
    · rename_i hfield hlow hhigh
      cases h
      refine Direct.renders_not ?_ _ _
      exact ⟨by simp [fields, hfield], Term.looks_of_fieldPath hfield, Term.looks_of_constant hlow,
        Term.looks_of_constant hhigh⟩
    · exact renders_expressionFilter h
  · split at h
    · cases h
    · rename_i hfield
      obtain ⟨regex, hregex, rfl⟩ := bind₁_eq_ok.mp h
      refine Direct.renders_not ?_ _ _
      exact ⟨by simp [fields, hfield], Term.looks_of_fieldPath hfield, Term.looks_of_likeRegex hregex⟩
  · split at h
    · rename_i hfield
      cases h
      exact .field _ ⟨by simp [fields, hfield], Term.looks_of_fieldPath hfield⟩
    · exact renders_expressionFilter h
  · exact renders_expressionFilter h

theorem renders_filter (h : c.filter = .ok v) : c.Renders v := by
  unfold Condition.filter at h
  split at h
  · obtain ⟨vs, hvs, rfl⟩ := bind₁_eq_ok.mp h
    exact .all hvs
  · obtain ⟨vs, hvs, rfl⟩ := bind₁_eq_ok.mp h
    exact .any hvs
  · exact renders_testFilter h

/-- The filter of a condition is a document of one field.  Where that field has the name of a
connective, it holds two filters at least, except if the condition is a test of a field that has this
very name. -/
theorem Renders.joins (h : c.Renders v) (hc : c.Branches) :
    ∃ name value, v = .field name value ∧ (name = "$and" ∨ name = "$or" →
      ((∃ items, value = .array items ∧ 2 ≤ items.length) ↔ name ∉ c.fields)) := by
  cases h with
  | all parts | any parts =>
    rw [Branches, ← length_filters parts] at hc
    exact ⟨_, _, rfl, fun _ => ⟨fun _ => not_mem_nil, fun _ => ⟨_, rfl, hc.1⟩⟩⟩
  | expression e => exact ⟨_, _, rfl, fun hname => absurd hname (by decide)⟩
  | field test direct =>
    refine ⟨_, _, rfl, fun _ => ⟨?_, fun hmem => absurd direct.mem hmem⟩⟩
    rintro ⟨items, hitems, -⟩
    cases hitems
  | @inside _ path sub test direct =>
    refine ⟨_, _, rfl, fun hname => ?_⟩
    -- a path into a document has a dot, and no connective has one
    have hdot : '.' ∈ (path ++ "." ++ sub).toList := by simp
    obtain hname | hname := hname <;> rw [hname] at hdot <;> exact absurd hdot (by decide)

end Condition

mutual

/-- A condition has a filter only if no sub-select stands in it that has no field. -/
theorem Condition.listed_of_filter : ∀ {c : Condition} {v : Value}, c.filter = .ok v →
    c.Looks Members.Unnested → c.Looks Members.Listed
  | c, _, h, hlooks => by
    cases Condition.renders_filter h with
    | all parts | any parts => exact allListed_of_filters parts hlooks
    | expression written => exact c.listed_of_expression written hlooks
    | field _ direct | inside _ _ direct => exact direct.listed

theorem allListed_of_filters : ∀ {cs : List Condition} {vs : List Value},
    filters cs = .ok vs → AllLook Members.Unnested cs → AllLook Members.Listed cs
  | [], _, _, _ => trivial
  | c :: cs, _, h, hlooks => by
    obtain ⟨v, hv, vs, hvs, -⟩ := bind₂_eq_ok.mp h
    exact ⟨c.listed_of_filter hv hlooks.1, allListed_of_filters hvs hlooks.2⟩

end

/-! ### Sub-selects that are registered -/

mutual

/-- A condition in which nothing has been given a field is as it was. -/
theorem Condition.registerNested_of_not_hasNested : ∀ {c : Condition} {s : Scope},
    (c.registerNested s).1.hasNested = false → (c.registerNested s).1 = c
  | .all cs, s, h => congrArg Condition.all (registerAll_of_not_hasNested h)
  | .any cs, s, h => congrArg Condition.any (registerAll_of_not_hasNested h)
  | .member _ (.subselect _) _, _, h => by cases h
  | .member _ (.list _) _, _, _ | .member _ (.nested _) _, _, _ => rfl
  | .compare .., _, _ | .isNull .., _, _ | .between .., _, _ | .like .., _, _ | .truth .., _, _ => rfl

theorem registerAll_of_not_hasNested : ∀ {cs : List Condition} {s : Scope},
    anyHasNested (registerAll cs s).1 = false → (registerAll cs s).1 = cs
  | [], _, _ => rfl
  | c :: cs, s, h => by
    obtain ⟨hc, hcs⟩ := Bool.or_eq_false_iff.mp h
    show _ :: _ = c :: cs
    rw [Condition.registerNested_of_not_hasNested hc, registerAll_of_not_hasNested hcs]

end

end DocSql
