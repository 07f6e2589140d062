import DocSql.Proofs.ClauseReading
import DocSql.Proofs.ConditionCells
import DocSql.Proofs.TokenHoles

/-! # Placeholders have parameters

The compiler asks the scope for the parameter of a placeholder wherever it meets one, and stops where
there is none.  Statements are checked against the number of their parameters once, before anything
else; this module shows that no later step can stop for that reason.
-/
namespace DocSql

open Compiled List

variable {tokens : List Token}

/-- The fault is not that of a placeholder without a parameter. -/
def Fault.Bound (f : Fault) : Prop :=
  ∀ index count, f ≠ .undecodable (.placeholderOutOfRange index count)

@[simp] theorem Fault.bound_unsupported (what : Unsupported) : Fault.Bound (.unsupported what) :=
  nofun

@[simp] theorem Fault.bound_undecodable {why : Undecodable} : Fault.Bound (.undecodable why) ↔
    ∀ index count, why ≠ .placeholderOutOfRange index count := by
  simp [Fault.Bound]

/-- The step does not stop at a placeholder. -/
abbrev Compiled.Bound (x : Compiled α) : Prop := FaultsIn Fault.Bound x

theorem Fault.OfWriting.bound {f : Fault} (h : f.OfWriting) : f.Bound := by
  cases h <;> simp

theorem Fault.OfPlanning.bound {f : Fault} (h : f.OfPlanning) : f.Bound := by
  cases h with
  | writing h => exact h.bound
  | unknownAlias | aliasBeforeGrouping | notAnAggregate => simp

/-! ### Conditions -/

mutual

theorem Condition.bound_negate (grouped : Bool) : ∀ c : Condition,
    Bound (c.negate grouped)
  | .all cs | .any cs => by simp [Condition.negate, bound_negateAll grouped cs]
  | .compare .. | .member .. | .isNull .. | .between .. | .truth .. => by simp [Condition.negate]
  | .like .. => by
    rw [Condition.negate]
    split <;> simp

theorem bound_negateAll (grouped : Bool) : ∀ cs : List Condition,
    Bound (negateAll grouped cs)
  | [] => by simp [negateAll]
  | c :: cs => by simp [negateAll, Condition.bound_negate grouped c, bound_negateAll grouped cs]

end

namespace Operand

theorem bound_toCondition (o : Operand) : Bound o.toCondition := by
  unfold toCondition
  split <;> simp

theorem bound_toTerm (o : Operand) : Bound o.toTerm := by
  unfold toTerm
  split <;> simp

theorem bound_toMembers (o : Operand) : Bound o.toMembers := by
  unfold toMembers
  split <;> simp

theorem bound_negate (o : Operand) : Bound o.negate := by
  unfold negate
  split <;> simp [Condition.bound_negate, bound_toCondition]

end Operand

theorem bound_nearest (cells : List Cell) : Bound (nearest cells) := by
  unfold nearest
  split <;> simp

theorem Connective.bound_apply (op : Connective) (left right : List Cell) :
    Bound (op.apply left right) := by
  cases op with
  | not =>
    rw [apply_not]
    simp [bound_nearest, Operand.bound_negate]
  | isNull | isBool | between =>
    simp [Connective.apply, bound_nearest, Operand.bound_toTerm]
  | like | member =>
    simp [Connective.apply, bound_nearest, Operand.bound_toTerm, Operand.bound_toMembers]
  | and | or => simp [Connective.apply, bound_nearest, Operand.bound_toCondition]

theorem bound_sweep (precedence fuel : Nat) (left right : List Cell) :
    Bound (sweep precedence fuel left right) := by
  fun_induction sweep precedence fuel left right with
  | case1 | case2 => simp
  | case3 _ _ _ _ ih => exact ih
  | case4 _ _ _ _ _ ih => simp [Connective.bound_apply, ih]
  | case5 _ _ _ _ _ ih => exact ih

theorem bound_reduce (cells : List Cell) : Bound (reduce cells) := by
  have hsweeps : Bound (sweepAll cells) :=
    faultsIn_foldlM (fun _ _ _ => bound_sweep _ _ _ _) cells
  unfold reduce
  refine hsweeps.bind fun swept _ => ?_
  split <;> simp [Operand.bound_toCondition]

/-! ### Terms -/

theorem Scope.bound_param {s : Scope} {index : Nat} (h : index < s.params.length) :
    Bound (s.param index) := by
  unfold Scope.param
  rw [getElem?_eq_getElem h]
  simp

namespace Reading

variable {r : Reading}

/-- The tokens hold no placeholder without a parameter. -/
def Covered (r : Reading) (tokens : List Token) : Prop := Token.Below r.scope.params.length tokens

/-- The sub-selects that the reading compiles do not stop at a placeholder. -/
def Binds (r : Reading) : Prop :=
  ∀ inner, r.Covered inner → Bound (r.subselect inner)

theorem Covered.within (h : r.Covered tokens) (scope : Scope)
    (hscope : scope.params = r.scope.params) (aliases : Bool) :
    Covered { r with scope, aliases } tokens := by
  rw [Covered, hscope]
  exact h

theorem Binds.within (hr : r.Binds) (scope : Scope) (hscope : scope.params = r.scope.params)
    (aliases : Bool) : Binds { r with scope, aliases } := by
  intro inner hinner
  rw [Covered, hscope] at hinner
  exact hr inner hinner

theorem bound_name (qualifier : Option String) (name : String) : Bound (r.name qualifier name) := by
  have htable (q : String) : Bound (r.scope.resolveTable q) := by
    unfold Scope.resolveTable
    split
    · simp
    · split <;> simp
  have hleft : Bound r.scope.leftTable := by
    unfold Scope.leftTable
    split <;> simp
  unfold Reading.name
  split
  · simp
  · split
    · simp [htable]
    · split <;> simp [hleft]

theorem bound_dateUnit (t : Term) : Bound (dateUnit t) := by
  unfold dateUnit
  split
  · split <;> simp
  · simp

theorem bound_keywordCells {rest : List Token} {read : Compiled (List Cell)}
    (hread : KeywordCells r rest read)
    (hresolve : ∀ t ∈ rest, Bound (r.resolve t))
    (hcells : ∀ afterIn rest', rest' <:+ rest → Bound (r.cells afterIn rest')) : Bound read := by
  cases hread with
  | keyword | isWithoutValue | betweenWithoutBounds => simp
  | operator op afterIn hsuffix => simp [hcells afterIn _ hsuffix]
  | between negated hlow hhigh hsuffix =>
    simp [hresolve _ hlow, hresolve _ hhigh, hcells false _ hsuffix]

section

variable (hr : r.Binds)
include hr

theorem bound_parenOperand (afterIn : Bool) {inner : List Token}
    (hinner : r.Covered inner) (hlist : Bound (r.resolveList inner))
    (hcells : Bound (r.cells false inner)) : Bound (r.parenOperand afterIn inner) := by
  unfold parenOperand
  split
  · split
    · simp [hr inner hinner]
    · split
      · simp
      · simp [hlist]
  · split
    · simp
    · simp [condition, hcells, bound_reduce]

set_option linter.unusedSectionVars false in
mutual

theorem bound_resolve : ∀ t : Token, r.Covered [t] → Bound (r.resolve t)
  | .name qualifier column, _ => by
    rw [Reading.resolve]
    exact bound_name qualifier column
  | .wildcard, _ | .literal _, _ => by simp [Reading.resolve]
  | .placeholder index, h => by
    have hparam := Scope.bound_param (Token.below_placeholder.mp h)
    simp [Reading.resolve, hparam]
  | .paren inner, h => by
    rw [Reading.resolve]
    split
    · simp
    · exact bound_resolveOne inner (Token.below_paren.mp h)
  | .call fn args, h => by
    rw [Reading.resolve]
    split
    · simp
    · exact bound_resolveCall _ args (Token.below_call.mp h)
  | .comparison left op right, h => by
    obtain ⟨hleft, hright⟩ := Token.below_comparison.mp h
    simp [Reading.resolve, bound_resolve left hleft, bound_resolve right hright]
  | .operation left op right, h => by
    obtain ⟨hleft, hright⟩ := Token.below_operation.mp h
    simp [Reading.resolve, bound_resolve left hleft, bound_resolve right hright]
  | .caseOf operand arms, h => by
    obtain ⟨hoperand, harms⟩ := Token.below_caseOf.mp h
    have hone := bound_resolveOne operand hoperand
    rw [Reading.resolve.eq_def]
    cases operand with
    | nil => simp [bound_resolveArms none arms harms]
    | cons t rest => simp [hone, bound_resolveArms _ arms harms]
  | .keyword _, _ | .punctuation _, _ | .operator _, _ | .aliased .., _ => by
    simp [Reading.resolve]
termination_by t => sizeOf t

theorem bound_resolveOne : ∀ tokens : List Token, r.Covered tokens →
    Bound (r.resolveOne tokens)
  | [], _ | _ :: _ :: _, _ => by simp [Reading.resolveOne]
  | [t], h => by
    rw [Reading.resolveOne]
    exact bound_resolve t h
termination_by tokens => sizeOf tokens

theorem bound_resolveCall (fn : Function) : ∀ args : List (List Token),
    (∀ arg ∈ args, r.Covered arg) → Bound (r.resolveCall fn args)
  | args, h => by
    rw [Reading.resolveCall.eq_def]
    split
    · simp
    · rename_i arg
      have harg : r.Covered (.keyword .DISTINCT :: arg) := h _ mem_cons_self
      simp [bound_resolveOne arg (Token.below_cons.mp harg).2]
    · rename_i arg _ _
      simp [bound_resolveOne arg (h arg mem_cons_self)]
    · simp
    · rename_i unit column
      have hunit := bound_resolveOne unit (h unit mem_cons_self)
      have hcolumn := bound_resolveOne column (h column (by simp))
      simp [hunit, hcolumn, bound_dateUnit]
    · simp
termination_by args => sizeOf args

theorem bound_resolveArms (operand : Option Term) : ∀ arms : TokenArms,
    Token.ArmsBelow r.scope.params.length arms → Bound (r.resolveArms operand arms)
  | .done, _ => by simp [Reading.resolveArms]
  | .otherwise body, h => by
    simp [Reading.resolveArms, bound_resolveOne body (Token.armsBelow_otherwise.mp h)]
  | .arm condition result rest, h => by
    obtain ⟨hcondition, hresult, hrest⟩ := Token.armsBelow_arm.mp h
    have hone := bound_resolveOne condition hcondition
    have hcells := bound_cells false condition hcondition
    rw [Reading.resolveArms.eq_def]
    cases operand with
    | some operand =>
      simp [hone, bound_resolveOne result hresult, bound_resolveArms _ rest hrest]
    | none =>
      simp [hcells, bound_reduce, bound_resolveOne result hresult,
        bound_resolveArms _ rest hrest]
termination_by arms => sizeOf arms

theorem bound_resolveList : ∀ tokens : List Token, r.Covered tokens →
    Bound (r.resolveList tokens)
  | [], _ => by simp [Reading.resolveList]
  | [t], h => by
    rw [Reading.resolveList]
    split
    · simp
    · simp [bound_resolve t h]
  | t :: next :: rest, h => by
    obtain ⟨ht, hrest⟩ := Token.below_cons.mp h
    rw [Reading.resolveList]
    split
    · simp
    · split
      · simp [bound_resolve t ht, bound_resolveList rest (Token.below_cons.mp hrest).2]
      · simp
termination_by tokens => sizeOf tokens

theorem bound_cells (afterIn : Bool) : ∀ tokens : List Token, r.Covered tokens →
    Bound (r.cells afterIn tokens)
  | [], _ => by simp [Reading.cells]
  | .keyword k :: rest, h => by
    have hrest := (Token.below_cons.mp h).2
    refine bound_keywordCells (keywordCells r afterIn k rest) ?_ ?_
    · intro t ht
      have hsize := sizeOf_lt_of_mem ht
      exact bound_resolve t (Token.below_iff.mp hrest t ht)
    · intro afterIn rest' hsuffix
      have hsize := sizeOf_le_of_suffix hsuffix
      exact bound_cells afterIn rest' (hrest.subset hsuffix.subset)
  | .paren inner :: rest, h => by
    obtain ⟨hinner, hrest⟩ := Token.below_cons.mp h
    have hinner := Token.below_paren.mp hinner
    have hlist := bound_resolveList inner hinner
    have hcells := bound_cells false inner hinner
    rw [cells_paren]
    simp [bound_parenOperand hr afterIn hinner hlist hcells, bound_cells false rest hrest]
  | .punctuation _ :: _, _ => by simp [Reading.cells]
  | .name .. :: rest, h | .literal _ :: rest, h | .placeholder _ :: rest, h | .wildcard :: rest, h
  | .operator _ :: rest, h | .call .. :: rest, h | .comparison .. :: rest, h
  | .operation .. :: rest, h | .caseOf .. :: rest, h | .aliased .. :: rest, h => by
    obtain ⟨ht, hrest⟩ := Token.below_cons.mp h
    simp [Reading.cells, bound_resolve _ ht, bound_cells false rest hrest]
termination_by tokens => sizeOf tokens

end

theorem bound_condition (h : r.Covered tokens) : Bound (r.condition tokens) := by
  simp [condition, bound_cells hr false tokens h, bound_reduce]

end

theorem Covered.takeUntil {c : TokenCursor} (h : r.Covered c.tokens) (stop : Token → Bool) :
    r.Covered (c.takeUntil stop).1 :=
  Token.Below.subset h fun _ ht => TokenCursor.mem_of_takeUntil ht

theorem Covered.of_reaches {c c' : TokenCursor} (h : r.Covered c.tokens) (hc : c.Reaches c') :
    r.Covered c'.tokens := hc.tokens ▸ h

end Reading

/-! ### Clauses -/

theorem TableRef.bound_ofToken (t : Token) : Bound (TableRef.ofToken t) := by
  have hrefuse (t : Token) : Bound (TableRef.refuse t : Compiled TableRef) := by
    unfold TableRef.refuse
    split <;> simp
  unfold TableRef.ofToken
  split <;> simp [hrefuse]

theorem Source.bound_read (c : TokenCursor) : Bound (Source.read c) := by
  unfold Source.read
  split
  · simp
  · split
    · simp
    · simp [TableRef.bound_ofToken]

section

variable {r : Reading} {c : TokenCursor}
variable {t : Token} {piece : List Token}

namespace Join

theorem bound_readKind (c : TokenCursor) : Bound (readKind c) := by
  have hkind {t : Token} {kind : Compiled JoinKind} (h : JoinKind.ofToken? t = some kind) :
      Bound kind := by
    unfold JoinKind.ofToken? at h
    split at h
    · unfold JoinKind.ofKeyword? at h
      split at h <;> cases h <;> simp
    · cases h
  unfold readKind
  split
  · split
    · rename_i kind h
      simp [hkind h]
    · simp
  · simp

theorem bound_readTable (c : TokenCursor) : Bound (readTable c) := by
  unfold readTable
  split <;> simp [TableRef.bound_ofToken]

theorem bound_readCondition (c : TokenCursor) : Bound (readCondition c) := by
  unfold readCondition
  split
  · simp
  · split <;> simp

theorem covered_readCondition {c' : TokenCursor} (hc : r.Covered c.tokens)
    (h : readCondition c = .ok (t, c')) : r.Covered [t] := by
  have hunwrap {t : Token} (ht : r.Covered [t]) : r.Covered [unwrap t] := by
    unfold unwrap
    split
    · exact Token.below_paren.mp ht
    · exact ht
  obtain ⟨-, ⟨u, hu, rfl⟩, -⟩ := readCondition_eq_ok h
  exact hunwrap (Token.below_iff.mp hc u (mem_of_getElem? hu))

theorem bound_columns (hr : r.Binds) (table : String) (ht : r.Covered [t]) :
    Bound (columns r table t) := by
  have hsides (lhs rhs : Term) : Bound (sides table lhs rhs) := by
    unfold sides
    split
    · split
      · simp
      · split <;> simp
    · simp
  unfold columns
  split
  · obtain ⟨hleft, hright⟩ := Token.below_comparison.mp ht
    simp [Reading.bound_resolve hr _ hleft, Reading.bound_resolve hr _ hright, hsides]
  · simp

theorem bound_read (hr : r.Binds) (hc : r.Covered c.tokens) : Bound (Join.read r c) := by
  unfold Join.read
  refine (bound_readKind c).bind ?_
  rintro ⟨kind, afterKind⟩ hkind
  refine (bound_readTable afterKind).bind ?_
  rintro ⟨table, afterTable⟩ htable
  refine (bound_readCondition afterTable).bind ?_
  rintro ⟨condition, after⟩ hcondition
  obtain ⟨-, rfl⟩ := readKind_eq_ok hkind
  obtain ⟨-, rfl⟩ := readTable_eq_ok htable
  have hcovered := covered_readCondition (c := c.past 2) hc hcondition
  have hcolumns := bound_columns (hr.within (enter table r.scope) rfl false) table.visible
    (hcovered.within _ rfl false)
  exact hcolumns.bind_ok

end Join

theorem Select.bound_readJoins {fuel : Nat} (hr : r.Binds) (hc : r.Covered c.tokens) :
    Bound (Select.readJoins r fuel c) := by
  induction fuel generalizing r c with
  | zero => simp [Select.readJoins]
  | succ fuel ih =>
    unfold Select.readJoins
    split
    · simp
    · refine (Join.bound_read hr hc).bind ?_
      rintro ⟨join, scope, c'⟩ hread
      obtain ⟨-, rfl, rfl⟩ := Join.read_eq_ok.mp hread
      have hrest := ih (c := c.past 4)
        (hr.within (Join.enter join.table r.scope) rfl r.aliases) (hc.within _ rfl r.aliases)
      exact hrest.bind_ok

namespace SelectItem

theorem bound_split (piece : List Token) : Bound (split piece) := by
  unfold split
  split <;> simp

theorem covered_split {label : Option String} (hpiece : r.Covered piece)
    (h : split piece = .ok (t, label)) : r.Covered [t] := by
  unfold split at h
  split at h
  · cases h
  · cases h
    exact Token.below_aliased.mp hpiece
  · cases h
    exact hpiece
  · cases h

theorem bound_readAll (hr : r.Binds) : ∀ {pieces : List (List Token)} (taken : List String)
    (place : Nat), (∀ piece ∈ pieces, r.Covered piece) →
    Bound (readAll r taken place pieces)
  | [], _, _, _ => by simp [readAll]
  | piece :: pieces, taken, place, hpieces => by
    obtain ⟨hpiece, hpieces⟩ := forall_mem_cons.mp hpieces
    unfold readAll
    refine (bound_split piece).bind ?_
    rintro ⟨t, label⟩ hsplit
    refine (Reading.bound_resolve hr t (covered_split hpiece hsplit)).bind fun term _ => ?_
    exact (bound_readAll hr _ _ hpieces).bind_ok

end SelectItem

theorem Reading.Covered.splitCommas (h : r.Covered tokens) :
    ∀ piece ∈ Token.splitCommas tokens, r.Covered piece :=
  fun _ hpiece => Token.below_splitCommas h hpiece

theorem Columns.bound_read (hr : r.Binds) (htokens : r.Covered tokens) (start : Nat) :
    Bound (Columns.read r tokens start) := by
  unfold Columns.read
  split
  · simp
  · have hitems := SelectItem.bound_readAll (hr.within r.scope rfl false) [] 0
      (htokens.within r.scope rfl false).splitCommas
    exact hitems.bind_ok

theorem Filter.bound_read? (hr : r.Binds) (hc : r.Covered c.tokens) : Bound (Filter.read? r c) := by
  unfold Filter.read?
  split
  · simp
  · rename_i afterWhere heat
    have htokens := (hc.of_reaches (TokenCursor.reaches_eat heat)).takeUntil isClauseKeyword
    have hcondition := Reading.bound_condition (hr.within r.scope rfl false)
      (htokens.within r.scope rfl false)
    exact hcondition.bind_ok

namespace Grouping

theorem bound_keyTerm (hr : r.Binds) (hpiece : r.Covered piece) : Bound (keyTerm r piece) := by
  have hone := Reading.bound_resolveOne (hr.within r.scope rfl true) piece
    (hpiece.within r.scope rfl true)
  have hcheck (t : Term) : FaultsIn Fault.Bound
      (if t.containsAggregate then undecodable .aggregateInGroupBy else .ok t) := by
    split <;> simp
  unfold keyTerm
  refine hone.bind fun t _ => ?_
  split
  · split <;> simp [hcheck]
  · simp [hcheck]

theorem bound_readKeys (hr : r.Binds) {columns : Columns} : ∀ {pieces : List (List Token)}
    {taken : List String} {place : Nat}, (∀ piece ∈ pieces, r.Covered piece) →
    Bound (readKeys r columns taken place pieces)
  | [], _, _, _ => by simp [readKeys]
  | piece :: pieces, taken, place, hpieces => by
    obtain ⟨hpiece, hpieces⟩ := forall_mem_cons.mp hpieces
    unfold readKeys
    simp [bound_keyTerm hr hpiece, bound_readKeys hr hpieces]

theorem bound_read? (hr : r.Binds) (columns : Columns) (hc : r.Covered c.tokens) :
    Bound (Grouping.read? r columns c) := by
  unfold Grouping.read?
  split
  · simp
  · rename_i afterGroup heat
    have htokens := (hc.of_reaches (TokenCursor.reaches_eat heat)).takeUntil isClauseKeyword
    simp only
    split
    · simp
    · simp [bound_readKeys hr htokens.splitCommas]

theorem bound_addOutputs (g : Grouping) (columns : Columns) : Bound (g.addOutputs columns) := by
  have hsteady : Planning.Steady (fun _ => True) (addItems columns.items) :=
    steady_addItems fun _ _ _ _ => trivial
  exact ((hsteady g).1.mono fun _ => Fault.OfPlanning.bound).bind_ok

end Grouping

theorem Having.bound_read? (hr : r.Binds) (columns : Columns) (g : Grouping)
    (hc : r.Covered c.tokens) : Bound (Having.read? r columns g c) := by
  unfold Having.read?
  split
  · simp
  · rename_i afterHaving heat
    have htokens := (hc.of_reaches (TokenCursor.reaches_eat heat)).takeUntil isClauseKeyword
    have hcondition := Reading.bound_condition (hr.within r.scope rfl true)
      (htokens.within r.scope rfl true)
    refine hcondition.bind fun asked _ => ?_
    have hsteady : Planning.Steady (fun _ => True)
        (asked.transform (Grouping.exposeNode columns) false) :=
      Grouping.steady_having fun _ _ => trivial
    refine ((hsteady g).1.mono fun _ => Fault.OfPlanning.bound).bind ?_
    rintro ⟨condition, g'⟩ _
    dsimp only
    split <;> simp

theorem Select.bound_readHaving (hr : r.Binds) (columns : Columns) (grouping : Option Grouping)
    (hc : r.Covered c.tokens) : Bound (Select.readHaving r columns grouping c) := by
  cases grouping with
  | none => simp [Select.readHaving]
  | some g => simp [Select.readHaving, Having.bound_read? hr columns g hc]

theorem Term.bound_expression (t : Term) : Bound t.expression :=
  (Term.faultsIn_expression t).mono fun _ => Fault.OfWriting.bound

theorem Distinct.bound_ofColumns (columns : Columns) (start : Nat) :
    Bound (Distinct.ofColumns columns start) := by
  have hitem (item : SelectItem) : Bound (Distinct.itemValue columns item) := by
    unfold Distinct.itemValue
    split <;> simp [Term.bound_expression]
  exact (faultsIn_mapM fun item _ => hitem item).bind_ok

namespace Sorting

theorem bound_splitDirection (piece : List Token) : Bound (splitDirection piece) := by
  unfold splitDirection
  simp only
  split <;> simp

theorem covered_splitDirection {direction : Direction} (hpiece : r.Covered piece)
    (h : splitDirection piece = .ok (tokens, direction)) : r.Covered tokens := by
  have hnulls (tokens : List Token) : (splitNulls tokens).2 ⊆ tokens := by
    unfold splitNulls
    split <;> simp
  have hword (tokens : List Token) : (splitWord tokens).2 ⊆ tokens := by
    unfold splitWord
    split <;> simp
  unfold splitDirection at h
  simp only at h
  split at h
  · cases h
  · cases h
    refine Token.below_reverse.mpr (Token.Below.subset (Token.below_reverse.mpr hpiece) ?_)
    exact Subset.trans (hword _) (hnulls _)

theorem bound_readKey (hr : r.Binds) (hpiece : r.Covered piece) : Bound (readKey r piece) := by
  unfold readKey
  refine (bound_splitDirection piece).bind ?_
  rintro ⟨tokens, direction⟩ hsplit
  have hcovered := covered_splitDirection hpiece hsplit
  have hone := Reading.bound_resolveOne (hr.within r.scope rfl true) tokens
    (hcovered.within r.scope rfl true)
  exact hone.bind_ok

theorem bound_read? (hr : r.Binds) (hc : r.Covered c.tokens) : Bound (Sorting.read? r c) := by
  unfold Sorting.read?
  split
  · simp
  · rename_i afterOrder heat
    have htokens := (hc.of_reaches (TokenCursor.reaches_eat heat)).takeUntil isClauseKeyword
    simp only
    split
    · simp
    · refine FaultsIn.bind_ok ?_
      exact faultsIn_mapM fun piece hpiece =>
        bound_readKey hr (htokens.splitCommas piece hpiece)

theorem bound_plainKey (columns : Columns) (place : Nat) (key : SortKey) :
    Bound (plainKey columns place key) := by
  have hbyName (name : String) : Bound (columns.byName name) := by
    unfold Columns.byName
    split <;> simp
  have hterm (t : Term) : Bound (plainTerm columns t) := by
    unfold plainTerm
    split
    · simp [hbyName]
    · split <;> simp
  unfold plainKey
  refine (hterm key.term).bind fun t _ => ?_
  split <;> simp [Term.bound_expression]

theorem bound_addPlain (columns : Columns) : ∀ (keys : List SortKey) (place : Nat)
    (sorting : Sorting), Bound (addPlain columns place sorting keys)
  | [], _, _ => by simp [addPlain]
  | key :: keys, place, sorting => by
    simp [addPlain, bound_plainKey, bound_addPlain columns keys]

theorem bound_resolveDistinct (sorting : Sorting) (columns : Columns) :
    Bound (sorting.resolveDistinct columns) := by
  have hitem (t : Term) : Bound (distinctItem columns t) := by
    unfold distinctItem
    simp only
    split <;> simp
  refine FaultsIn.bind_ok ?_
  refine faultsIn_mapM fun key _ => ?_
  exact (hitem key.term).bind_ok

theorem bound_resolveGrouped (sorting : Sorting) (columns : Columns) (g : Grouping) :
    Bound (sorting.resolveGrouped columns g) := by
  have hsteady : Planning.Steady (fun _ => True) (exposeKeys columns sorting.keys) :=
    steady_exposeKeys fun _ _ _ _ => trivial
  exact ((hsteady g).1.mono fun _ => Fault.OfPlanning.bound).bind_ok

end Sorting

theorem Select.bound_resolveSorting (columns : Columns) (distinct : Bool)
    (sorting : Option Sorting) (grouping : Option Grouping) :
    Bound (Select.resolveSorting columns distinct sorting grouping) := by
  unfold Select.resolveSorting
  split
  · simp
  · split
    · simp [Sorting.bound_resolveDistinct]
    · simp [Sorting.bound_resolveGrouped]
    · simp [Sorting.resolvePlain, Sorting.bound_addPlain]

namespace Window

variable {s : Scope}

theorem bound_rowCount (ht : Token.Below s.params.length [t]) : Bound (rowCount s t) := by
  unfold rowCount
  split
  · refine (faultsIn_ok _).bind fun value _ => ?_
    dsimp only
    split <;> simp
  · refine (Scope.bound_param (Token.below_placeholder.mp ht)).bind fun value _ => ?_
    dsimp only
    split <;> simp
  · refine (faultsIn_undecodable.mpr (by simp)).bind fun value _ => ?_
    dsimp only
    split <;> simp

theorem bound_readBounds {limit offset : Option Nat} (h : Token.Below s.params.length tokens) :
    Bound (readBounds s limit offset tokens) := by
  have hnew (given : Option Nat) {t : Token} (ht : Token.Below s.params.length [t]) :
      Bound (newBound s given t) := by
    unfold newBound
    split
    · simp
    · exact bound_rowCount ht
  have hrefuse (given : Option Nat) :
      Bound (refuseBound given : Compiled Bounds) := by
    unfold refuseBound
    split <;> simp
  fun_induction readBounds s limit offset tokens with
  | case1 limit offset t rest ih =>
    have hrest := (Token.below_cons.mp h).2
    obtain ⟨ht, hrest⟩ := Token.below_cons.mp hrest
    simp [hnew limit ht, ih, hrest]
  | case2 limit offset => exact hrefuse limit
  | case3 limit offset t rest ih =>
    have hrest := (Token.below_cons.mp h).2
    obtain ⟨ht, hrest⟩ := Token.below_cons.mp hrest
    simp [hnew offset ht, ih, hrest]
  | case4 limit offset => exact hrefuse offset
  | case5 => simp

theorem bound_read? (h : Token.Below s.params.length c.tokens) : Bound (Window.read? s c) := by
  have hrest : Token.Below s.params.length c.rest := h.subset (drop_subset _ _)
  refine (bound_readBounds hrest).bind fun bounds _ => ?_
  split
  · simp
  · split <;> simp

end Window

end

end DocSql
