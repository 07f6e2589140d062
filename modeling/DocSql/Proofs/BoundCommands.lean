import DocSql.Proofs.BoundHoles
import DocSql.Command.Basic

/-! # Commands bind their placeholders

A query asks for parameters while its clauses are read, a sub-select does so within the query that
holds it, and a write within its rows, its assignments or its filter.  Each of them gives the tokens
that it was given, or some of them, to the readers of terms and conditions, so none stops at a
placeholder once the tokens ask for no more parameters than there are.
-/
namespace DocSql

open Compiled List

variable {tokens : List Token}

/-! ### Queries -/

namespace Select

/-- Sub-selects do not stop at a placeholder, where the parameters are the given ones. -/
def SubselectsBound (params : List Value) (subselect : List Token → Compiled Subselect) : Prop :=
  ∀ inner, Token.Below params.length inner → Bound (subselect inner)

section

variable {subselect : List Token → Compiled Subselect} {scope : Scope}

theorem SubselectsBound.binds (hsub : SubselectsBound scope.params subselect) {scope' : Scope}
    (hscope : scope'.params = scope.params) : Reading.Binds ⟨scope', false, subselect⟩ := by
  intro inner hinner
  rw [Reading.Covered, hscope] at hinner
  exact hsub inner hinner

theorem covered_of_subset {tokens' : List Token} {scope' : Scope}
    (htokens : Token.Below scope.params.length tokens) (hscope : scope'.params = scope.params)
    (hsubset : tokens' ⊆ tokens) : Reading.Covered ⟨scope', false, subselect⟩ tokens' := by
  rw [Reading.Covered, hscope]
  exact htokens.subset hsubset

theorem bound_mapM_addOutputs (columns : Columns) (plan : Option Grouping) :
    Bound (plan.mapM fun g => g.addOutputs columns) := by
  cases plan with
  | none => exact faultsIn_ok none
  | some g =>
    exact (Grouping.bound_addOutputs g columns).bind_ok

theorem tokens_readDistinct (c : TokenCursor) : (readDistinct c).2.tokens = c.tokens := by
  unfold readDistinct
  split
  · rename_i after heat
    exact (TokenCursor.reaches_eat heat).tokens
  · rfl

/-- Reading a query does not stop at a placeholder if its sub-selects do not. -/
theorem bound_read (hsub : SubselectsBound scope.params subselect)
    (htokens : Token.Below scope.params.length tokens) :
    Bound (Select.read subselect scope tokens) := by
  unfold Select.read
  simp only
  split
  · simp
  rename_i start hstart
  have hlist : (readDistinct start).2.tokens = tokens :=
    (tokens_readDistinct start).trans (TokenCursor.reaches_eat hstart).tokens
  have hcovered {c : TokenCursor} {scope' : Scope} (hc : c.tokens = tokens)
      (hscope : scope'.params = scope.params) :
      Reading.Covered ⟨scope', false, subselect⟩ c.tokens :=
    covered_of_subset htokens hscope (by rw [hc]; exact Subset.refl _)
  refine (Source.bound_read _).bind ?_
  rintro ⟨source, c₁⟩ hsource
  have hc₁ : c₁.tokens = tokens := (Source.read_covers hsource).tokens.trans hlist
  have hentered : (source.enter scope).params = scope.params := rfl
  refine (bound_readJoins (hsub.binds hentered) (hcovered hc₁ hentered)).bind ?_
  rintro ⟨joins, scope₁, c₂⟩ hjoins
  obtain ⟨hcovers, hscope₁⟩ := readJoins_covers hjoins
  obtain ⟨tables, hadded, -⟩ := Join.scope_enterAll
  have hscope₁ : scope₁.params = scope.params := (congrArg Scope.params (hscope₁.trans hadded) :)
  have hc₂ := hcovers.tokens.trans hc₁
  have hitems : Reading.Covered ⟨scope₁, false, subselect⟩
      ((readDistinct start).2.takeUntil (Token.isKeyword .FROM)).1 :=
    (hcovered hlist hscope₁).takeUntil _
  refine (Columns.bound_read (hsub.binds hscope₁) hitems _).bind fun columns _ => ?_
  have hcolumns : (columns.enter scope₁).params = scope.params := hscope₁
  refine (Filter.bound_read? (hsub.binds hcolumns) (hcovered hc₂ hcolumns)).bind ?_
  rintro ⟨filter, scope₂, c₃⟩ hfilter
  obtain ⟨hcovers, hscope₂⟩ := Filter.read_covers hfilter
  have hscope₂ : scope₂.params = scope.params := hscope₂.trans hcolumns
  have hc₃ := hcovers.tokens.trans hc₂
  refine (Grouping.bound_read? (hsub.binds hscope₂) columns (hcovered hc₃ hscope₂)).bind ?_
  rintro ⟨explicit, c₄⟩ hexplicit
  have hc₄ := (Grouping.read_covers hexplicit).1.tokens.trans hc₃
  refine (bound_mapM_addOutputs columns _).bind fun planned _ => ?_
  refine (bound_readHaving (hsub.binds hscope₂) columns planned (hcovered hc₄ hscope₂)).bind ?_
  rintro ⟨having, grouped, c₅⟩ hhaving
  have hc₅ := (readHaving_covers hhaving).1.tokens.trans hc₄
  have hrows : Bound (if (readDistinct start).1 then
      some <$> Distinct.ofColumns { columns with materialized := grouped.isSome } start.position
      else pure none) := by
    split
    · exact faultsIn_map.mpr (Distinct.bound_ofColumns _ _)
    · exact faultsIn_ok none
  refine faultsIn_ite_bind.mpr ⟨hrows, fun distinct _ => ?_⟩
  refine (Sorting.bound_read? (hsub.binds hscope₂) (hcovered hc₅ hscope₂)).bind ?_
  rintro ⟨sorting, c₆⟩ hsorting
  have hc₆ := (Sorting.read_covers hsorting).tokens.trans hc₅
  refine (bound_resolveSorting _ _ _ _).bind ?_
  rintro ⟨sorted, final⟩ _
  refine (Window.bound_read? (hcovered hc₆ hscope₂)).bind ?_
  rintro ⟨window, c₇⟩ _
  dsimp only
  split <;> simp

end

end Select

/-! ### Stages and arguments -/

theorem Condition.bound_filter (c : Condition) : Bound c.filter :=
  (Condition.faultsIn_filter c).mono fun _ => Fault.OfWriting.bound

theorem Term.bound_projected (t : Term) : Bound t.projected :=
  (Term.faultsIn_projected t).mono fun _ => Fault.OfWriting.bound

theorem Clause.bound_stagesOf {α : Type} [Clause α]
    (h : ∀ clause : α, Bound (Clause.stages clause)) (clause : Option α) :
    Bound (Clause.stagesOf clause) := by
  cases clause with
  | none => exact faultsIn_ok []
  | some clause => exact h clause

theorem Clause.bound_findOf {α : Type} [Clause α]
    (h : ∀ (clause : α) (args : FindArgs), Bound (Clause.find clause args))
    (clause : Option α) (args : FindArgs) : Bound (Clause.findOf clause args) := by
  cases clause with
  | none => exact faultsIn_ok args
  | some clause => exact h clause args

theorem Columns.bound_stages (columns : Columns) : Bound (Clause.stages columns) := by
  refine FaultsIn.bind_ok ?_
  refine faultsIn_mapM fun item _ => ?_
  refine faultsIn_ite_bind.mpr ⟨?_, fun _ _ => faultsIn_ok _⟩
  unfold SelectItem.projection
  split
  · exact faultsIn_ok _
  · split
    · exact faultsIn_ok _
    · exact Term.bound_projected item.term

theorem Filter.bound_stages (filter : Filter) : Bound (Clause.stages filter) :=
  (Condition.bound_filter filter.condition).bind_ok

theorem Having.bound_stages (having : Having) : Bound (Clause.stages having) :=
  (Condition.bound_filter having.condition).bind_ok

theorem Grouping.bound_stages (g : Grouping) : Bound (Clause.stages g) := by
  have hkeys : Bound g.keyDocument := by
    unfold Grouping.keyDocument
    split
    · simp
    · refine FaultsIn.bind_ok ?_
      refine faultsIn_mapM fun key _ => ?_
      simp [Term.bound_expression]
  have houtput (output : String × Term) : Bound (Grouping.projectOutput output) := by
    unfold Grouping.projectOutput
    split
    · split <;> simp [Term.bound_projected]
    · simp [Term.bound_projected]
  have hproject : Bound g.projectStage :=
    (faultsIn_mapM fun output _ => houtput output).bind_ok
  refine faultsIn_bind.mpr ⟨?_, fun _ _ => ?_⟩
  · exact hkeys.bind_ok
  · exact hproject.bind_ok

namespace Select

theorem bound_pipeline (q : Select) : Bound q.pipeline := by
  have hlast : Bound q.lastStages := by
    unfold lastStages
    split
    · exact Columns.bound_stages q.columns
    · simp
  have hdistinct (d : Distinct) : Bound (Clause.stages d) := faultsIn_ok _
  have hsorting (s : Sorting) : Bound (Clause.stages s) := faultsIn_ok _
  have hwindow (w : Window) : Bound (Clause.stages w) := faultsIn_ok _
  simp [pipeline, Clause.bound_stagesOf Filter.bound_stages,
    Clause.bound_stagesOf Grouping.bound_stages, Clause.bound_stagesOf Having.bound_stages,
    Clause.bound_stagesOf hdistinct, Clause.bound_stagesOf hsorting, Clause.bound_stagesOf hwindow,
    hlast]

theorem bound_findArgs (q : Select) : Bound q.findArgs := by
  have hcolumns (args : FindArgs) : Bound (Clause.find q.columns args) := by
    simp only [Clause.find]
    split <;> simp
  have hfilter (f : Filter) (args : FindArgs) : Bound (Clause.find f args) :=
    (Condition.bound_filter f.condition).bind_ok
  have hsorting (s : Sorting) (args : FindArgs) : Bound (Clause.find s args) := by
    simp only [Clause.find]
    split <;> simp
  have hwindow (w : Window) (args : FindArgs) : Bound (Clause.find w args) :=
    faultsIn_ok _
  simp [findArgs, hcolumns, Clause.bound_findOf hfilter, Clause.bound_findOf hsorting,
    Clause.bound_findOf hwindow]

theorem bound_command (q : Select) : Bound q.command := by
  unfold command
  split
  · simp [bound_pipeline q]
  · simp [bound_findArgs q]

theorem bound_toSubselect (q : Select) : Bound q.toSubselect := by
  unfold toSubselect
  split
  · split
    · simp [bound_pipeline q]
    · simp
  · simp

/-- However deep sub-selects stand in each other, none stops at a placeholder. -/
theorem subselectsBound_within (params : List Value) (fuel : Nat) :
    SubselectsBound params (subselectWithin params fuel) := by
  induction fuel with
  | zero =>
    intro inner _
    simp [subselectWithin]
  | succ fuel ih =>
    intro inner hinner
    have hread : Bound (read (subselectWithin params fuel) { params } inner) :=
      bound_read ih hinner
    simp [subselectWithin, hread, bound_toSubselect]

theorem bound_compile {params : List Value} (htokens : Token.Below params.length tokens) :
    Bound (Select.compile params tokens) :=
  bound_read (subselectsBound_within params _) htokens

end Select

/-! ### Writes -/

section

variable {r : Reading}
variable {c : TokenCursor}

namespace Insert

theorem bound_readColumn (tokens : List Token) : Bound (readColumn tokens) := by
  unfold readColumn
  split <;> simp

theorem bound_readTarget (tokens : List Token) : Bound (readTarget tokens) := by
  have hcolumns (pieces : List (List Token)) : Bound (pieces.mapM readColumn) :=
    faultsIn_mapM fun piece _ => bound_readColumn piece
  unfold readTarget
  split <;> simp [hcolumns]

theorem readTarget_subset {rest : List Token} {collection : String} {columns : List String}
    (h : readTarget tokens = .ok (collection, columns, rest)) : rest ⊆ tokens := by
  unfold readTarget at h
  split at h
  · obtain ⟨names, -, h⟩ := bind_eq_ok.mp h
    cases h
    exact subset_cons_self _ _
  · obtain ⟨names, -, h⟩ := bind_eq_ok.mp h
    cases h
    exact subset_cons_of_subset _ (subset_cons_self _ _)
  · cases h
  · cases h

theorem bound_readValue (hr : r.Binds) (htokens : r.Covered tokens) :
    Bound (readValue r tokens) := by
  unfold readValue
  split
  · simp
  · refine (Reading.bound_resolve hr _ htokens).bind fun term _ => ?_
    split <;> simp
  · simp

theorem bound_readRow (hr : r.Binds) (width : Nat) (htokens : r.Covered tokens) :
    Bound (readRow r width tokens) := by
  refine faultsIn_bind.mpr ⟨?_, fun row _ => ?_⟩
  · exact faultsIn_mapM fun piece hpiece =>
      bound_readValue hr (htokens.splitCommas piece hpiece)
  · split <;> simp

theorem bound_readRows (hr : r.Binds) (width : Nat) {afterRow : Bool} (htokens : r.Covered tokens) :
    Bound (readRows r width afterRow tokens) := by
  fun_induction readRows r width afterRow tokens with
  | case1 afterRow t values rest hrow ih =>
    obtain ⟨-, hrest⟩ := Token.below_cons.mp htokens
    obtain ⟨hvalues, hrest⟩ := Token.below_cons.mp hrest
    have hvalues := bound_readRow hr width (Token.below_paren.mp hvalues)
    simp [hvalues, ih hrest]
  | case2 => simp
  | case3 => simp
  | case4 => simp
  | case5 => simp

theorem bound_compile (hr : r.Binds) (htokens : r.Covered tokens) :
    Bound (Insert.compile r tokens) := by
  have hend (rest : List Token) : Bound (checkEnd rest) := by
    unfold checkEnd
    split
    · simp
    · split <;> simp
  unfold compile
  split
  · rename_i rest
    refine (bound_readTarget rest).bind ?_
    rintro ⟨collection, columns, behind⟩ htarget
    have hbehind : r.Covered behind := Token.Below.subset htokens fun t ht =>
      mem_cons_of_mem _ (mem_cons_of_mem _ (readTarget_subset htarget ht))
    refine (bound_readRows hr columns.length hbehind).bind ?_
    rintro ⟨rows, left⟩ _
    dsimp only
    split
    · simp
    · simp [hend]
  · simp

end Insert

namespace Assignments

theorem bound_assign (a : Assignments) (field : String) (t : Term) : Bound (a.assign field t) := by
  unfold assign
  split
  · simp
  · split <;> simp
  · simp

theorem bound_readOne (hr : r.Binds) (a : Assignments) (htokens : r.Covered tokens) :
    Bound (readOne r a tokens) := by
  unfold readOne
  split
  · obtain ⟨hleft, hright⟩ := Token.below_comparison.mp htokens
    refine (Reading.bound_resolve hr _ hleft).bind fun target _ => ?_
    split
    · simp [Reading.bound_resolve hr _ hright, bound_assign]
    · simp
  · simp

theorem bound_read (hr : r.Binds) (hc : r.Covered c.tokens) : Bound (Assignments.read r c) := by
  unfold Assignments.read
  split
  · simp
  · rename_i afterSet heat
    have htokens := (hc.of_reaches (TokenCursor.reaches_eat heat)).takeUntil isClauseKeyword
    have hpieces := (htokens.within r.scope rfl false).splitCommas
    dsimp only
    split
    · simp
    · refine FaultsIn.bind_ok ?_
      exact faultsIn_foldlM
        (fun a piece hpiece => bound_readOne (hr.within r.scope rfl false) a (hpieces piece hpiece)) _

theorem reaches_read {c' : TokenCursor} {a : Assignments} (h : Assignments.read r c = .ok (a, c')) :
    c.Reaches c' := by
  unfold Assignments.read at h
  split at h
  · cases h
  · rename_i afterSet heat
    dsimp only at h
    split at h
    · cases h
    · obtain ⟨a', -, h⟩ := bind_eq_ok.mp h
      cases h
      exact (TokenCursor.reaches_eat heat).trans (TokenCursor.reaches_takeUntil _ _)

end Assignments

theorem bound_writeFilter (hr : r.Binds) (hc : r.Covered c.tokens) : Bound (writeFilter r c) := by
  refine (Filter.bound_read? hr hc).bind ?_
  rintro ⟨clause, _, after⟩ _
  dsimp only
  split
  · refine (faultsIn_ok _).bind fun filter _ => ?_
    split <;> simp
  · refine faultsIn_ite_bind.mpr ⟨?_, fun filter _ => ?_⟩
    · split
      · simp
      · exact Condition.bound_filter _
    · split <;> simp

theorem Update.bound_compile (hr : r.Binds) (htokens : r.Covered tokens) :
    Bound (Update.compile r tokens) := by
  unfold Update.compile
  split
  · simp
  · rename_i start hstart
    split
    · simp
    · rename_i t after hnext
      refine (TableRef.bound_ofToken t).bind fun table _ => ?_
      have hafter : r.Covered after.tokens := Reading.Covered.of_reaches (c := ⟨tokens, 0⟩) htokens
        ((TokenCursor.reaches_eat hstart).trans (TokenCursor.reaches_next hnext))
      let scope := r.scope.setLeftTable table.visible table.collection
      have hr := hr.within scope rfl r.aliases
      have hafter := hafter.within scope rfl r.aliases
      refine (Assignments.bound_read hr hafter).bind ?_
      rintro ⟨assignments, behind⟩ hread
      have hbehind := hafter.of_reaches (Assignments.reaches_read hread)
      exact (bound_writeFilter hr hbehind).bind_ok

theorem Delete.bound_compile (hr : r.Binds) (htokens : r.Covered tokens) :
    Bound (Delete.compile r tokens) := by
  unfold Delete.compile
  split
  · simp
  · rename_i start hstart
    refine (Source.bound_read start).bind ?_
    rintro ⟨source, after⟩ hsource
    have hafter : r.Covered after.tokens := Reading.Covered.of_reaches (c := ⟨tokens, 0⟩) htokens
      ((TokenCursor.reaches_eat hstart).trans (Source.read_covers hsource).toReaches)
    have hfilter := bound_writeFilter (hr.within (source.enter r.scope) rfl r.aliases)
      (hafter.within (source.enter r.scope) rfl r.aliases)
    exact hfilter.bind_ok

end

theorem SchemaHint.bound_compile (kind : StatementKind) (tokens : List Token) :
    Bound (SchemaHint.compile kind tokens) := by
  unfold SchemaHint.compile
  split
  · split <;> simp
  · simp

/-! ### Commands -/

namespace Command

theorem bound_ofTokens {params : List Value} (kind : StatementKind)
    (htokens : Token.Below params.length tokens) : Bound (ofTokens kind params tokens) := by
  have hr : (Scope.reading { params } false tokens).Binds :=
    Select.subselectsBound_within params (Token.depthAll tokens)
  have hcovered : (Scope.reading { params } false tokens).Covered tokens := htokens
  cases kind with
  | select => simp [ofTokens, Select.bound_compile htokens, Select.bound_command]
  | insert => simp [ofTokens, Insert.bound_compile hr hcovered]
  | update => simp [ofTokens, Update.bound_compile hr hcovered]
  | delete => simp [ofTokens, Delete.bound_compile hr hcovered]
  | create | alter | drop => simp [ofTokens, SchemaHint.bound_compile]

/-- A statement whose placeholders are below the number that it gives for them does not stop at a
placeholder, whatever the parameters are. -/
theorem bound_compile {statement : Statement}
    (htokens : Token.Below statement.placeholders statement.tokens) (params : List Value) :
    Bound (compile statement params) := by
  unfold compile
  split
  · rename_i hcount
    exact bound_ofTokens statement.kind (hcount ▸ htokens)
  · simp

end Command

end DocSql
