import DocSql.Proofs.ConditionCells

/-! # What reading keeps

Reading builds terms and conditions from tokens: constructor by constructor, by negating, and by
joining with AND and OR.  A property that none of these can break (`Trait`) holds of everything that
is read.  The induction over tokens, cells and sweeps is made here once; a statement about the
conditions of a query names its trait.
-/
namespace DocSql
open Compiled List

/-- A property of terms, CASE branches, conditions and what terms are looked for in, that reading
keeps. -/
structure Trait (r : Reading) where
  term : Term → Prop
  arms : Arms → Prop
  condition : Condition → Prop
  members : Members → Prop
  -- terms
  column {qualifier : Option String} {name : String} {c : Column} :
    r.name qualifier name = .ok (.column c) → term (.column c)
  field {qualifier : Option String} {name label : String} :
    r.name qualifier name = .ok (.field label) → term (.field label)
  const (value : Value) : term (.const value)
  param (index : Nat) (value : Value) : term (.param index value)
  countAll : term .countAll
  compare (op : Comparison) {lhs rhs : Term} : term lhs → term rhs → term (.compare lhs op rhs)
  aggregate (fn : Aggregate) (distinct : Bool) {arg : Term} :
    term arg → term (.aggregate fn distinct arg)
  dateTrunc (unit : DateUnit) {arg : Term} : term arg → term (.dateTrunc unit arg)
  arith (op : Arithmetic) {left right : Term} : term left → term right → term (.arith op left right)
  caseOf {branches : Arms} : arms branches → term (.caseOf branches)
  -- branches
  done : arms .done
  otherwise {t : Term} : term t → arms (.otherwise t)
  arm {c : Condition} {t : Term} {rest : Arms} :
    condition c → term t → arms rest → arms (.arm c t rest)
  -- what terms are looked for in
  list {ts : List Term} : (∀ t ∈ ts, term t) → members (.list ts)
  subselect {inner : List Token} {s : Subselect} : r.subselect inner = .ok s → members (.subselect s)
  -- conditions
  tested {lhs rhs : Term} {op : Comparison} :
    term (.compare lhs op rhs) → condition (.compare lhs op rhs)
  truth {t : Term} (negated : Bool) : term t → condition (.truth t negated)
  isNull {t : Term} (negated : Bool) : term t → condition (.isNull t negated)
  between {t low high : Term} (negated : Bool) :
    term t → term low → term high → condition (.between t low high negated)
  like {t pattern : Term} (ignoreCase negated : Bool) :
    term t → term pattern → condition (.like t pattern ignoreCase negated)
  member {t : Term} {m : Members} (negated : Bool) :
    term t → members m → condition (.member t m negated)
  negate {c c' : Condition} {grouped : Bool} :
    condition c → c.negate grouped = .ok c' → condition c'
  and {lhs rhs : Condition} : condition lhs → condition rhs → condition (lhs.and rhs)
  or {lhs rhs : Condition} : condition lhs → condition rhs → condition (lhs.or rhs)

namespace Trait

variable {r : Reading} (T : Trait r)
variable {c : Condition} {cells : List Cell}

/-! ### Operands -/

/-- The property of an operand. -/
def operand : Operand → Prop
  | .term t => T.term t
  | .condition c _ => T.condition c
  | .members m => T.members m

/-- The property of an operator, which may bring terms along. -/
def connective : Connective → Prop
  | .between low high _ => T.term low ∧ T.term high
  | _ => True

theorem connective_of_bare {T : Trait r} {op : Connective} (h : op.isBare = true) :
    T.connective op := by
  cases op
  case between => cases h
  all_goals trivial

/-- The property of a cell. -/
def cell : Cell → Prop
  | .operand o => T.operand o
  | .operator op => T.connective op

/-- All cells have the property. -/
def Row (cells : List Cell) : Prop := ∀ cell ∈ cells, T.cell cell

section

variable {T} {o : Operand}
variable {left right left' right' : List Cell}

theorem condition_toCondition (ho : T.operand o) (h : o.toCondition = .ok c) : T.condition c := by
  unfold Operand.toCondition at h
  split at h
  all_goals cases h
  · exact ho
  · exact T.tested ho
  · exact T.truth false ho
  · exact T.truth false ho

theorem term_toTerm {t : Term} (ho : T.operand o) (h : o.toTerm = .ok t) : T.term t := by
  unfold Operand.toTerm at h
  split at h
  all_goals cases h
  exact ho

theorem members_toMembers {m : Members} (ho : T.operand o) (h : o.toMembers = .ok m) :
    T.members m := by
  unfold Operand.toMembers at h
  split at h
  all_goals cases h
  · exact ho
  · exact T.list (forall_mem_singleton.mpr ho)

theorem condition_negate (ho : T.operand o) (h : o.negate = .ok c) : T.condition c := by
  unfold Operand.negate at h
  split at h
  · exact T.negate ho h
  · obtain ⟨c', hc', h⟩ := bind_eq_ok.mp h
    exact T.negate (condition_toCondition ho hc') h

/-! ### Applying operators -/

@[simp] theorem row_nil : T.Row [] := nofun

@[simp] theorem row_cons {cell : Cell} :
    T.Row (cell :: cells) ↔ T.cell cell ∧ T.Row cells := forall_mem_cons

@[simp] theorem row_append {cells' : List Cell} :
    T.Row (cells ++ cells') ↔ T.Row cells ∧ T.Row cells' := forall_mem_append

@[simp] theorem row_reverse : T.Row cells.reverse ↔ T.Row cells := by
  simp [Row]

theorem Row.nearest {skipped beyond : List Cell} (hcells : T.Row cells)
    (h : nearest cells = .ok (skipped, o, beyond)) :
    T.Row skipped ∧ T.operand o ∧ T.Row beyond := by
  rw [nearest_eq_ok h, row_append, row_cons] at hcells
  exact hcells

/-- The cells that an operator leaves where it has put a condition. -/
theorem Row.around {skipped beyond : List Cell} (hskipped : T.Row skipped) (hc : T.condition c)
    (hbeyond : T.Row beyond) : T.Row (skipped ++ .ofCondition c :: beyond) :=
  row_append.mpr ⟨hskipped, row_cons.mpr ⟨hc, hbeyond⟩⟩

/-- An operator that makes a condition of the nearest term before it. -/
theorem Row.apply_left {f : Term → Condition} (hleft : T.Row left) (hright : T.Row right)
    (hf : ∀ t, T.term t → T.condition (f t)) (h : (do
      let (skipped, o, beyond) ← DocSql.nearest left
      let t ← o.toTerm
      return (skipped ++ Cell.ofCondition (f t) :: beyond, right)) = .ok (left', right')) :
    T.Row left' ∧ T.Row right' := by
  obtain ⟨⟨skipped, o, beyond⟩, hnear, t, ht, h⟩ := bind₂_eq_ok.mp h
  cases h
  obtain ⟨hskipped, ho, hbeyond⟩ := hleft.nearest hnear
  exact ⟨hskipped.around (hf t (term_toTerm ho ht)) hbeyond, hright⟩

/-- An operator that makes a condition of the nearest operands before and behind it. -/
theorem Row.apply_both {α β : Type} {asLeft : Operand → Compiled α} {asRight : Operand → Compiled β}
    {f : α → β → Condition} (hleft : T.Row left) (hright : T.Row right)
    (hf : ∀ o o' a b, T.operand o → T.operand o' → asLeft o = .ok a → asRight o' = .ok b →
      T.condition (f a b)) (h : (do
      let (skipped, o, beyond) ← DocSql.nearest left
      let (skipped', o', beyond') ← DocSql.nearest right
      let b ← asRight o'
      let a ← asLeft o
      return (skipped ++ Cell.ofCondition (f a b) :: beyond, skipped' ++ beyond')) =
        .ok (left', right')) : T.Row left' ∧ T.Row right' := by
  obtain ⟨⟨skipped, o, beyond⟩, hnear, h⟩ := bind_eq_ok.mp h
  obtain ⟨⟨skipped', o', beyond'⟩, hnear', h⟩ := bind_eq_ok.mp h
  obtain ⟨b, hb, a, ha, h⟩ := bind₂_eq_ok.mp h
  cases h
  obtain ⟨hskipped, ho, hbeyond⟩ := hleft.nearest hnear
  obtain ⟨hskipped', ho', hbeyond'⟩ := hright.nearest hnear'
  exact ⟨hskipped.around (hf o o' a b ho ho' ha hb) hbeyond, row_append.mpr ⟨hskipped', hbeyond'⟩⟩

theorem Row.apply {op : Connective} (hop : T.connective op) (hleft : T.Row left)
    (hright : T.Row right) (h : op.apply left right = .ok (left', right')) :
    T.Row left' ∧ T.Row right' := by
  cases op with
  | not =>
    rw [apply_not] at h
    obtain ⟨⟨skipped, o, beyond⟩, hnear, c, hc, h⟩ := bind₂_eq_ok.mp h
    cases h
    obtain ⟨hskipped, ho, hbeyond⟩ := hright.nearest hnear
    exact ⟨hleft, hskipped.around (condition_negate ho hc) hbeyond⟩
  | isNull negated => exact hleft.apply_left hright (fun _ ht => T.isNull negated ht) h
  | isBool value negated =>
    refine hleft.apply_left hright ?_ h
    exact fun _ ht => T.tested (T.compare _ ht (T.const _))
  | between low high negated =>
    exact hleft.apply_left hright (fun _ ht => T.between negated ht hop.1 hop.2) h
  | like ignoreCase negated =>
    exact hleft.apply_both hright (fun _ _ _ _ ho ho' ht hp =>
      T.like ignoreCase negated (term_toTerm ho ht) (term_toTerm ho' hp)) h
  | member negated =>
    exact hleft.apply_both hright (fun _ _ _ _ ho ho' ht hm =>
      T.member negated (term_toTerm ho ht) (members_toMembers ho' hm)) h
  | and =>
    exact hleft.apply_both hright (fun _ _ _ _ ho ho' ha hb =>
      T.and (condition_toCondition ho ha) (condition_toCondition ho' hb)) h
  | or =>
    exact hleft.apply_both hright (fun _ _ _ _ ho ho' ha hb =>
      T.or (condition_toCondition ho ha) (condition_toCondition ho' hb)) h

theorem Row.sweep {precedence fuel : Nat} (hleft : T.Row left) (hright : T.Row right)
    (h : sweep precedence fuel left right = .ok cells) : T.Row cells := by
  fun_induction DocSql.sweep precedence fuel left right with
  | case1 left right =>
    cases h
    exact row_append.mpr ⟨row_reverse.mpr hleft, hright⟩
  | case2 left =>
    cases h
    exact row_reverse.mpr hleft
  | case3 left fuel o right ih =>
    obtain ⟨ho, hright⟩ := row_cons.mp hright
    exact ih (row_cons.mpr ⟨ho, hleft⟩) hright h
  | case4 left fuel op right _ ih =>
    obtain ⟨hop, hright⟩ := row_cons.mp hright
    obtain ⟨⟨left', right'⟩, happly, h⟩ := bind_eq_ok.mp h
    obtain ⟨hleft', hright'⟩ := Row.apply hop hleft hright happly
    exact ih left' right' hleft' hright' h
  | case5 left fuel op right _ ih =>
    obtain ⟨hop, hright⟩ := row_cons.mp hright
    exact ih (row_cons.mpr ⟨hop, hleft⟩) hright h

theorem Row.sweeps {levels : List Nat} {swept : List Cell} (hcells : T.Row cells)
    (h : levels.foldlM (fun cells precedence => DocSql.sweep precedence cells.length [] cells)
      cells = .ok swept) : T.Row swept := by
  induction levels generalizing cells with
  | nil =>
    cases h
    exact hcells
  | cons level levels ih =>
    obtain ⟨cells', hsweep, h⟩ := bind_eq_ok.mp h
    exact ih (Row.sweep row_nil hcells hsweep) h

/-- What a row with the property reduces to has it. -/
theorem Row.reduce (hcells : T.Row cells) (h : reduce cells = .ok c) : T.condition c := by
  obtain ⟨swept, hswept, h⟩ := bind_eq_ok.mp h
  have hrow := hcells.sweeps hswept
  split at h
  · cases h
  · rename_i o ho
    refine condition_toCondition ?_ h
    have hmem : o ∈ operandsOf swept := by rw [ho]; exact mem_singleton_self o
    obtain ⟨cell, hcell, hoperand⟩ := mem_filterMap.mp hmem
    cases cell with
    | operand o' =>
      cases hoperand
      exact hrow _ hcell
    | operator op => cases hoperand
  · cases h

end

/-! ### Reading -/

section

variable {T}

theorem term_name {qualifier : Option String} {name : String} {t : Term}
    (h : r.name qualifier name = .ok t) : T.term t := by
  obtain ⟨_, rfl, -⟩ | ⟨rfl, -⟩ := Reading.name_eq_ok h
  · exact T.column h
  · exact T.field h

theorem row_keywordCells {rest : List Token} {read : Compiled (List Cell)}
    (hread : r.KeywordCells rest read) (h : read = .ok cells)
    (hresolve : ∀ t ∈ rest, ∀ term, r.resolve t = .ok term → T.term term)
    (hcells : ∀ rest' afterIn cells', rest' <:+ rest → r.cells afterIn rest' = .ok cells' →
      T.Row cells') : T.Row cells := by
  cases hread with
  | keyword | isWithoutValue | betweenWithoutBounds => cases h
  | operator op afterIn hsuffix bare =>
    obtain ⟨cells', hcells', rfl⟩ := bind₁_eq_ok.mp h
    exact row_cons.mpr ⟨connective_of_bare bare, hcells _ _ _ hsuffix hcells'⟩
  | between negated hlow hhigh hsuffix =>
    obtain ⟨low, hlow', high, hhigh', cells', hcells', rfl⟩ := bind₃_eq_ok.mp h
    exact row_cons.mpr ⟨⟨hresolve _ hlow low hlow', hresolve _ hhigh high hhigh'⟩,
      hcells _ _ _ hsuffix hcells'⟩

theorem operand_parenOperand {afterIn : Bool} {inner : List Token} {o : Operand}
    (h : r.parenOperand afterIn inner = .ok o)
    (hlist : ∀ terms, r.resolveList inner = .ok terms → ∀ t ∈ terms, T.term t)
    (hcells : ∀ cells, r.cells false inner = .ok cells → T.Row cells) : T.operand o := by
  unfold Reading.parenOperand at h
  split at h
  · split at h
    · obtain ⟨s, hs, rfl⟩ := bind₁_eq_ok.mp h
      exact T.subselect hs
    · split at h
      · cases h
        exact T.list fun _ h => absurd h not_mem_nil
      · obtain ⟨terms, hterms, rfl⟩ := bind₁_eq_ok.mp h
        exact T.list (hlist terms hterms)
  · split at h
    · cases h
    · obtain ⟨c, hc, rfl⟩ := bind₁_eq_ok.mp h
      obtain ⟨cells, hrow, hreduce⟩ := bind_eq_ok.mp hc
      exact (hcells cells hrow).reduce hreduce

mutual

theorem term_resolve : ∀ {t : Token} {term : Term}, r.resolve t = .ok term → T.term term
  | .name qualifier column, _, h => by
    rw [Reading.resolve] at h
    exact term_name h
  | .wildcard, _, h | .keyword _, _, h | .punctuation _, _, h | .operator _, _, h
  | .aliased .., _, h => by
    simp [Reading.resolve, unsupported, undecodable] at h
  | .literal l, _, h => by
    rw [Reading.resolve] at h
    cases h
    exact T.const _
  | .placeholder index, _, h => by
    obtain ⟨value, -, rfl⟩ := bind₁_eq_ok.mp h
    exact T.param _ _
  | .paren inner, _, h => by
    rw [Reading.resolve] at h
    split at h
    · cases h
    · exact term_resolveOne h
  | .call fn args, _, h => by
    rw [Reading.resolve] at h
    split at h
    · cases h
    · exact term_resolveCall h
  | .comparison left op right, _, h => by
    obtain ⟨lhs, hlhs, rhs, hrhs, rfl⟩ := bind₂_eq_ok.mp h
    exact T.compare op (term_resolve hlhs) (term_resolve hrhs)
  | .operation left op right, _, h => by
    obtain ⟨lhs, hlhs, rhs, hrhs, rfl⟩ := bind₂_eq_ok.mp h
    exact T.arith op (term_resolve hlhs) (term_resolve hrhs)
  | .caseOf [] branches, _, h => by
    obtain ⟨arms, harms, rfl⟩ := bind₁_eq_ok.mp h
    exact T.caseOf (arms_resolveArms none nofun harms)
  | .caseOf (t :: rest) branches, _, h => by
    obtain ⟨operand, hoperand, arms, harms, rfl⟩ := bind₂_eq_ok.mp h
    have hterm : T.term operand := term_resolveOne hoperand
    refine T.caseOf (arms_resolveArms (some operand) ?_ harms)
    rintro _ ⟨⟩
    exact hterm
termination_by t => sizeOf t

theorem term_resolveOne : ∀ {tokens : List Token} {term : Term},
    r.resolveOne tokens = .ok term → T.term term
  | [], _, h => by
    rw [Reading.resolveOne] at h
    cases h
  | [t], _, h => by
    rw [Reading.resolveOne] at h
    exact term_resolve h
  | _ :: _ :: _, _, h => by
    rw [Reading.resolveOne] at h
    · cases h
    · simp
termination_by tokens => sizeOf tokens

theorem term_resolveCall {fn : Function} : ∀ {args : List (List Token)} {term : Term},
    r.resolveCall fn args = .ok term → T.term term
  | args, _, h => by
    rw [Reading.resolveCall.eq_def] at h
    split at h
    · cases h
      exact T.countAll
    · obtain ⟨arg, harg, rfl⟩ := bind₁_eq_ok.mp h
      exact T.aggregate _ _ (term_resolveOne harg)
    · obtain ⟨arg, harg, rfl⟩ := bind₁_eq_ok.mp h
      exact T.aggregate _ _ (term_resolveOne harg)
    · cases h
    · obtain ⟨unitTerm, -, h⟩ := bind_eq_ok.mp h
      obtain ⟨unit, -, arg, harg, rfl⟩ := bind₂_eq_ok.mp h
      exact T.dateTrunc _ (term_resolveOne harg)
    · cases h
termination_by args => sizeOf args

theorem arms_resolveArms (operand : Option Term) (hoperand : ∀ t, operand = some t → T.term t) :
    ∀ {branches : TokenArms} {arms : Arms}, r.resolveArms operand branches = .ok arms → T.arms arms
  | .done, _, h => by
    rw [Reading.resolveArms] at h
    cases h
    exact T.done
  | .otherwise body, _, h => by
    obtain ⟨result, hresult, rfl⟩ := bind₁_eq_ok.mp h
    exact T.otherwise (term_resolveOne hresult)
  | .arm condition result rest, _, h => by
    rw [Reading.resolveArms.eq_def] at h
    cases operand with
    | some operand =>
      obtain ⟨value, hvalue, h⟩ := bind_eq_ok.mp h
      obtain ⟨_, ⟨⟩, h⟩ := bind_eq_ok.mp h
      obtain ⟨t, ht, arms, harms, rfl⟩ := bind₂_eq_ok.mp h
      have hcompare := T.compare .eq (hoperand operand rfl) (term_resolveOne hvalue)
      exact T.arm (T.tested hcompare) (term_resolveOne ht) (arms_resolveArms _ hoperand harms)
    | none =>
      obtain ⟨cells, hcells, h⟩ := bind_eq_ok.mp h
      obtain ⟨c, hc, h⟩ := bind_eq_ok.mp h
      obtain ⟨t, ht, arms, harms, rfl⟩ := bind₂_eq_ok.mp h
      exact T.arm ((row_cells hcells).reduce hc) (term_resolveOne ht)
        (arms_resolveArms _ hoperand harms)
termination_by branches => sizeOf branches

theorem terms_resolveList : ∀ {tokens : List Token} {terms : List Term},
    r.resolveList tokens = .ok terms → ∀ t ∈ terms, T.term t
  | [], _, h => by
    rw [Reading.resolveList] at h
    cases h
  | [t], _, h => by
    rw [Reading.resolveList] at h
    split at h
    · cases h
    · obtain ⟨term, hterm, rfl⟩ := bind₁_eq_ok.mp h
      exact forall_mem_singleton.mpr (term_resolve hterm)
  | t :: next :: rest, _, h => by
    rw [Reading.resolveList] at h
    split at h
    · cases h
    · split at h
      · obtain ⟨term, hterm, h⟩ := bind_eq_ok.mp h
        obtain ⟨terms, hterms, rfl⟩ := bind₁_eq_ok.mp h
        exact forall_mem_cons.mpr ⟨term_resolve hterm, terms_resolveList hterms⟩
      · cases h
termination_by tokens => sizeOf tokens

theorem row_cells {afterIn : Bool} : ∀ {tokens : List Token} {cells : List Cell},
    r.cells afterIn tokens = .ok cells → T.Row cells
  | [], _, h => by
    rw [Reading.cells] at h
    cases h
    exact row_nil
  | .keyword k :: rest, _, h => by
    refine row_keywordCells (Reading.keywordCells r afterIn k rest) h ?_ ?_
    · intro t ht term hterm
      have hsize := sizeOf_lt_of_mem ht
      exact term_resolve hterm
    · intro rest' afterIn cells hsuffix hcells
      have hsize := Reading.sizeOf_le_of_suffix hsuffix
      exact row_cells hcells
  | .paren inner :: rest, _, h => by
    rw [Reading.cells_paren] at h
    obtain ⟨o, ho, cells, hcells, rfl⟩ := bind₂_eq_ok.mp h
    refine row_cons.mpr ⟨operand_parenOperand ho ?_ ?_, row_cells hcells⟩
    · exact fun terms hterms => terms_resolveList hterms
    · exact fun cells hcells => row_cells hcells
  | .punctuation _ :: _, _, h => by
    rw [Reading.cells] at h
    cases h
  | .name .. :: rest, _, h | .literal _ :: rest, _, h | .placeholder _ :: rest, _, h
  | .wildcard :: rest, _, h | .operator _ :: rest, _, h | .call .. :: rest, _, h
  | .comparison .. :: rest, _, h | .operation .. :: rest, _, h | .caseOf .. :: rest, _, h
  | .aliased .. :: rest, _, h => by
    rw [Reading.cells] at h
    · obtain ⟨term, hterm, h⟩ := bind_eq_ok.mp h
      obtain ⟨cells, hcells, rfl⟩ := bind₁_eq_ok.mp h
      exact row_cons.mpr ⟨term_resolve hterm, row_cells hcells⟩
    all_goals nofun
termination_by tokens => sizeOf tokens

end

/-- What is read as a condition has the property. -/
theorem condition_read {tokens : List Token} (h : r.condition tokens = .ok c) : T.condition c := by
  obtain ⟨cells, hcells, hreduce⟩ := bind_eq_ok.mp h
  exact (row_cells hcells).reduce hreduce

end

end Trait

/-! ### Sub-selects -/

/-- A sub-select that the reading has compiled. -/
def Reading.Compiles (r : Reading) (s : Subselect) : Prop := ∃ inner, r.subselect inner = .ok s

/-- No sub-select is made up: those of a condition are compiled ones. -/
def Trait.compiledSubselects (r : Reading) : Trait r where
  term _ := True
  arms _ := True
  condition c := ∀ s ∈ c.subselects, r.Compiles s
  members m := ∀ t negated, ∀ s ∈ (Condition.member t m negated).subselects, r.Compiles s
  column _ := trivial
  field _ := trivial
  const _ := trivial
  param _ _ := trivial
  countAll := trivial
  compare _ _ _ _ _ := trivial
  aggregate _ _ _ _ := trivial
  dateTrunc _ _ _ := trivial
  arith _ _ _ _ _ := trivial
  caseOf _ := trivial
  done := trivial
  otherwise _ := trivial
  arm _ _ _ := trivial
  list _ _ _ := by simp [Condition.subselects]
  subselect h _ _ := by simpa [Condition.subselects] using ⟨_, h⟩
  tested _ := by simp [Condition.subselects]
  truth _ _ := by simp [Condition.subselects]
  isNull _ _ := by simp [Condition.subselects]
  between _ _ _ _ := by simp [Condition.subselects]
  like _ _ _ _ := by simp [Condition.subselects]
  member negated _ hm := hm _ negated
  negate hc h := by rwa [Condition.subselects_negate h]
  and hlhs hrhs := by simpa only [Condition.subselects_and, forall_mem_append] using ⟨hlhs, hrhs⟩
  or hlhs hrhs := by simpa only [Condition.subselects_or, forall_mem_append] using ⟨hlhs, hrhs⟩

/-- The sub-selects that a WHERE clause adds to the scope are compiled ones. -/
theorem Filter.compiles_nested {r : Reading} {c c' : TokenCursor} {filter : Option Filter}
    {scope : Scope} (h : Filter.read? r c = .ok (filter, scope, c'))
    (hscope : ∀ n ∈ r.scope.nested, r.Compiles n.subselect) :
    ∀ n ∈ scope.nested, r.Compiles n.subselect := by
  obtain ⟨-, rfl, -⟩ | ⟨_, condition, -, hcondition, -, -, rfl⟩ := Filter.read?_eq_ok h
  · exact hscope
  · have hcompiles := Trait.condition_read (T := Trait.compiledSubselects _) hcondition
    rw [condition.scope_registerNested]
    intro n hn
    rcases mem_append.mp hn with hold | hnew
    · exact hscope n hold
    · have hmem := mem_map_of_mem (f := (·.subselect)) hnew
      rw [map_subselect_numbered] at hmem
      exact hcompiles _ hmem

end DocSql
