import DocSql.Proofs.LevelFolding

/-! # Unfolding a level

The operators and aliases of a level are folded into tokens that hold their operands.  `spread` takes
such a token apart again, and what is spread folds into the same tokens (`foldLevel_spread`), although
it is not always what was folded in the first place: an alias gets an AS, and `!=` becomes `<>`
(`Rewritten`).  Each strength of operators is unfolded on its own.  A joined token is a chain that grows
from the left (`Chained`), and operators that found no operands find none again (`Loose`).
-/
namespace DocSql
open List

namespace Token

variable {op : String} {build : Token → Token → Token} {t : Token} {tokens : List Token}
  {P : Token → Prop}

/-! ### Joining operands -/

/-- Whether the token is an operator that has not found its operands. -/
def isOperator : Token → Bool
  | .operator _ => true
  | _ => false

section

variable {select : String → Option (Token → Token → Token)} {unfold : Token → List Token}
variable {out out' : List Token} {right : Token}
variable {rest tokens' : List Token} {free : Bool}

theorem isOperator_of_isOperand (h : t.isOperand = true) : t.isOperator = false := by
  cases t <;> first | rfl | cases h

theorem joinOver?_eq_none (h : t.isOperator = false) : joinOver? select out t right = none := by
  cases t <;> first | rfl | cases h

theorem joinOver?_eq_none_of_right (h : right.isOperand = false) :
    joinOver? select out t right = none := by
  unfold joinOver?
  split
  · split
    · simp [h]
    · rfl
  · rfl

theorem joinOver?_eq_none_of_select (h : select op = none) :
    joinOver? select out (.operator op) right = none := by
  cases out with
  | nil => rfl
  | cons left rest => simp [joinOver?, h]

theorem joinOver?_operator {left : Token} (hop : select op = some build)
    (hleft : left.isOperand = true) (hright : right.isOperand = true) :
    joinOver? select (left :: out) (.operator op) right = some (build left right :: out) := by
  simp [joinOver?, hop, hleft, hright]

theorem joinOver?_eq_some (h : joinOver? select out t right = some out') :
    ∃ op build left rest, t = .operator op ∧ select op = some build ∧ out = left :: rest ∧
      left.isOperand = true ∧ right.isOperand = true ∧ out' = build left right :: rest := by
  unfold joinOver? at h
  split at h
  · rename_i op left rest
    split at h
    · rename_i build hbuild
      split at h
      · rename_i hoperands
        obtain ⟨hleft, hright⟩ := Bool.and_eq_true_iff.mp hoperands
        cases h
        exact ⟨op, build, left, rest, rfl, hbuild, rfl, hleft, hright, rfl⟩
      · cases h
    · cases h
  · cases h

/-- `!=` is another spelling of `<>`. -/
def canon : Token → Token
  | .operator op => .operator (if op = "!=" then "<>" else op)
  | t => t

theorem eq_or_of_canon {t' : Token} (h : canon t = canon t') :
    t = t' ∨ ∃ op op', (op = "!=" ∨ op = "<>") ∧ (op' = "!=" ∨ op' = "<>") ∧ t = .operator op ∧
      t' = .operator op' := by
  by_cases ht : t.isOperator = true
  · obtain ⟨op, rfl⟩ : ∃ op, t = .operator op := by
      cases t <;> first | exact ⟨_, rfl⟩ | cases ht
    obtain ⟨op', rfl⟩ : ∃ op', t' = .operator op' := by
      cases t' <;> first | exact ⟨_, rfl⟩ | cases h
    simp only [canon, Token.operator.injEq] at h
    grind
  · refine .inl ?_
    cases t <;> first | exact absurd rfl ht | skip
    all_goals cases t' <;> first | exact h | cases h

/-- Only the last token that is done matters to whether an operator joins, in either spelling. -/
theorem joinOver?_eq_none_congr (h : out.head?.map canon = out'.head?.map canon)
    (hnone : joinOver? select out t right = none) : joinOver? select out' t right = none := by
  cases hjoin : joinOver? select out' t right with
  | none => rfl
  | some joined =>
    obtain ⟨op, build, left, rest, rfl, hop, rfl, hleft, hright, -⟩ := joinOver?_eq_some hjoin
    obtain ⟨left', hhead, hcanon⟩ := Option.map_eq_some_iff.mp h
    obtain ⟨rest', rfl⟩ := head?_eq_some_iff.mp hhead
    rcases eq_or_of_canon hcanon with rfl | ⟨-, op', -, -, -, rfl⟩
    · rw [joinOver?_operator hop hleft hright] at hnone
      cases hnone
    · cases hleft

/-! ### Chains of operands -/

/-- A token that stands alone under `unfold`, or that `select` has built from operands, the first
ones first. -/
inductive Chained (select : String → Option (Token → Token → Token)) (unfold : Token → List Token) :
    Token → Prop
  | atom {t : Token} (alone : unfold t = [t]) : Chained select unfold t
  | join {left right : Token} {op : String} {build : Token → Token → Token}
    (chain : Chained select unfold left) (selects : select op = some build)
    (left_operand : left.isOperand = true) (right_operand : right.isOperand = true)
    (unfolds : unfold (build left right) = unfold left ++ [.operator op, right]) :
    Chained select unfold (build left right)

/-- `unfold` takes apart what `select` builds and nothing else that it would have to join. -/
structure Undoes (unfold : Token → List Token) (select : String → Option (Token → Token → Token)) :
    Prop where
  operator (op : String) : unfold (.operator op) = [.operator op]
  keyword (k : Keyword) : unfold (.keyword k) = [.keyword k]
  name (label : String) : unfold (.name none label) = [.name none label]
  built {op : String} {build : Token → Token → Token} {left : Token} (right : Token)
    (selects : select op = some build) (left_operand : left.isOperand = true) :
    ∃ op', canon (.operator op) = canon (.operator op') ∧ select op' = some build ∧
      (build left right).isOperator = false ∧
      unfold (build left right) = unfold left ++ [.operator op', right]

theorem Chained.unfold_ne_nil (h : Chained select unfold t) : unfold t ≠ [] := by
  cases h with
  | atom alone => simp [alone]
  | join _ _ _ _ unfolds => simp [unfolds]

/-- A chain ends with an operator only where it is one. -/
theorem Chained.getLast?_unfold (h : Chained select unfold t) (ht : t.isOperator = false) :
    ∃ xs last, unfold t = xs ++ [last] ∧ last.isOperator = false := by
  cases h with
  | atom alone => exact ⟨[], t, alone, ht⟩
  | @join left right op build chain selects hleft hright unfolds =>
    refine ⟨unfold left ++ [.operator op], right, ?_, isOperator_of_isOperand hright⟩
    rw [unfolds]
    simp

/-- What a chain is unfolded to is joined to the chain. -/
theorem Chained.foldBinary_append (h : Chained select unfold t)
    (hjoin : ∀ right, rest.head? = some right → joinOver? select out t right = none) :
    foldBinary select out (unfold t ++ rest) = foldBinary select (t :: out) rest := by
  induction h generalizing rest with
  | @atom t alone =>
    rw [alone]
    cases rest with
    | nil => rfl
    | cons next rest => rw [singleton_append, foldBinary, hjoin next rfl]
  | @join left right op build chain selects hleft hright unfolds ih =>
    have hpass : foldBinary select out (unfold left ++ .operator op :: right :: rest) =
        foldBinary select (left :: out) (.operator op :: right :: rest) :=
      ih fun _ _ => joinOver?_eq_none (isOperator_of_isOperand hleft)
    rw [unfolds, append_assoc, cons_append, singleton_append, hpass, foldBinary,
      joinOver?_operator selects hleft hright]

/-! ### Operators that find no operands -/

/-- No operator among the tokens joins what stands before and behind it, where `out` is done. -/
def Loose (select : String → Option (Token → Token → Token)) (unfold : Token → List Token) :
    List Token → List Token → Prop
  | _, [] => True
  | out, t :: rest =>
    (∀ right, (rest.flatMap unfold).head? = some right → joinOver? select out t right = none) ∧
      Loose select unfold (t :: out) rest

/-- The same of tokens whose last one stands first, with `next` behind them. -/
def LooseBack (select : String → Option (Token → Token → Token)) (unfold : Token → List Token) :
    List Token → Option Token → Prop
  | [], _ => True
  | t :: out, next =>
    (∀ right, next = some right → joinOver? select out t right = none) ∧
      LooseBack select unfold out (unfold t).head?

theorem LooseBack.loose (hback : LooseBack select unfold out (tokens.flatMap unfold).head?)
    (hne : ∀ t ∈ out, unfold t ≠ []) (h : Loose select unfold out tokens) :
    Loose select unfold [] (out.reverse ++ tokens) := by
  induction out generalizing tokens with
  | nil => exact h
  | cons t out ih =>
    obtain ⟨hnext, hback⟩ := hback
    obtain ⟨hne, hrest⟩ := forall_mem_cons.mp hne
    rw [reverse_cons, append_assoc, singleton_append]
    refine ih ?_ hrest ⟨hnext, h⟩
    rwa [flatMap_cons, head?_append_of_ne_nil _ hne]

/-- What loose chains are unfolded to folds into the chains. -/
theorem foldBinary_flatMap_unfold (hchained : ∀ t ∈ tokens, Chained select unfold t)
    (hloose : Loose select unfold out tokens) :
    foldBinary select out (tokens.flatMap unfold) = out.reverse ++ tokens := by
  induction tokens generalizing out with
  | nil => simp [foldBinary]
  | cons t rest ih =>
    obtain ⟨ht, hrest⟩ := forall_mem_cons.mp hchained
    obtain ⟨hjoin, hloose⟩ := hloose
    rw [flatMap_cons, ht.foldBinary_append hjoin, ih hrest hloose]
    simp

/-- Folding operators gives chains, whose operators find no more operands, and which are unfolded to
what was folded. -/
theorem foldBinary_chained (hundo : Undoes unfold select) (htokens : ∀ t ∈ tokens, unfold t = [t])
    (hout : ∀ t ∈ out, Chained select unfold t) (hback : LooseBack select unfold out tokens.head?) :
    ∃ done, foldBinary select out tokens = done.reverse ∧ (∀ t ∈ done, Chained select unfold t) ∧
      LooseBack select unfold done none ∧
      (done.reverse.flatMap unfold).map canon =
        (out.reverse.flatMap unfold ++ tokens).map canon := by
  fun_induction foldBinary select out tokens with
  | case1 out => exact ⟨out, rfl, hout, hback, by simp⟩
  | case2 out t =>
    have ht := htokens t mem_cons_self
    refine ⟨t :: out, rfl, forall_mem_cons.mpr ⟨.atom ht, hout⟩, ⟨?_, ?_⟩, by simp [ht]⟩
    · rintro _ ⟨⟩
    · rw [ht]
      exact hback
  | case3 out t right rest out' hjoin ih =>
    obtain ⟨op, build, left, before, rfl, hop, rfl, hleft, hright, rfl⟩ := joinOver?_eq_some hjoin
    obtain ⟨op', hcanon, hop', hbuilt, hunfold⟩ := hundo.built right hop hleft
    obtain ⟨hchain, hbefore⟩ := forall_mem_cons.mp hout
    obtain ⟨-, htokens⟩ := forall_mem_cons.mp htokens
    have hhead : (unfold (build left right)).head? = (unfold left).head? := by
      rw [hunfold, head?_append_of_ne_nil _ hchain.unfold_ne_nil]
    obtain ⟨done, hdone, hall, hloose, hmap⟩ := ih (forall_mem_cons.mp htokens).2
      (forall_mem_cons.mpr ⟨.join hchain hop' hleft hright hunfold, hbefore⟩)
      ⟨fun _ _ => joinOver?_eq_none hbuilt, hhead ▸ hback.2⟩
    refine ⟨done, hdone, hall, hloose, ?_⟩
    rw [hmap]
    simp [hunfold, hcanon]
  | case4 out t right rest hjoin ih =>
    obtain ⟨ht, htokens⟩ := forall_mem_cons.mp htokens
    have hback' : LooseBack select unfold (t :: out) (right :: rest).head? := by
      refine ⟨?_, by rwa [ht]⟩
      rintro _ ⟨⟩
      exact hjoin
    obtain ⟨done, hdone, hall, hloose, hmap⟩ :=
      ih htokens (forall_mem_cons.mpr ⟨.atom ht, hout⟩) hback'
    refine ⟨done, hdone, hall, hloose, ?_⟩
    rw [hmap]
    simp [ht]

theorem forall_foldBinary
    (hbuild : ∀ {op build left right}, select op = some build → left.isOperand = true →
      right.isOperand = true → P left → P right → P (build left right)) (hout : ∀ t ∈ out, P t)
    (htokens : ∀ t ∈ tokens, P t) : ∀ t ∈ foldBinary select out tokens, P t := by
  fun_induction foldBinary select out tokens with
  | case1 out => exact fun t ht => hout t (mem_reverse.mp ht)
  | case2 out t =>
    have hall : ∀ u ∈ t :: out, P u := forall_mem_cons.mpr ⟨htokens t mem_cons_self, hout⟩
    exact fun u hu => hall u (mem_reverse.mp hu)
  | case3 out t right rest out' hjoin ih =>
    obtain ⟨op, build, left, before, rfl, hop, rfl, hleft, hright, rfl⟩ := joinOver?_eq_some hjoin
    obtain ⟨hPleft, hbefore⟩ := forall_mem_cons.mp hout
    obtain ⟨-, htokens⟩ := forall_mem_cons.mp htokens
    obtain ⟨hPright, hrest⟩ := forall_mem_cons.mp htokens
    exact ih (forall_mem_cons.mpr ⟨hbuild hop hleft hright hPleft hPright, hbefore⟩) hrest
  | case4 out t right rest hjoin ih =>
    obtain ⟨ht, htokens⟩ := forall_mem_cons.mp htokens
    exact ih (forall_mem_cons.mpr ⟨ht, hout⟩) htokens

/-! ### What is written another way -/

/-- The second level is the first one with an AS before some names; `free` says that the token before
is no operator, which has to be the case there. -/
inductive Labelled : Bool → List Token → List Token → Prop
  | nil {free : Bool} : Labelled free [] []
  | cons {free : Bool} {t : Token} {rest rest' : List Token}
    (more : Labelled (!t.isOperator) rest rest') : Labelled free (t :: rest) (t :: rest')
  | label {label : String} {rest rest' : List Token} (more : Labelled true rest rest') :
    Labelled true (.name none label :: rest) (.keyword .AS :: .name none label :: rest')

/-- The second level is the first one with an AS before some names and `<>` for some `!=`. -/
def Rewritten (tokens tokens' : List Token) : Prop :=
  ∃ respelled, respelled.map canon = tokens.map canon ∧ Labelled false respelled tokens'

theorem Labelled.cases_cons (h : Labelled free (t :: rest) tokens') :
    ∃ more, tokens' = t :: more ∨ tokens' = .keyword .AS :: more := by
  cases h with
  | cons more => exact ⟨_, .inl rfl⟩
  | label more => exact ⟨_, .inr rfl⟩

theorem Labelled.append_left {xs rest' : List Token} {last : Token}
    (h : Labelled (!last.isOperator) rest rest') :
    Labelled free (xs ++ last :: rest) (xs ++ last :: rest') := by
  induction xs generalizing free with
  | nil => exact .cons h
  | cons x xs ih => exact .cons ih

theorem Labelled.forall_mem (h : Labelled free tokens tokens') (hAS : P (.keyword .AS))
    (hall : ∀ t ∈ tokens, P t) : ∀ t ∈ tokens', P t := by
  induction h with
  | nil => exact hall
  | cons more ih =>
    obtain ⟨ht, hall⟩ := forall_mem_cons.mp hall
    exact forall_mem_cons.mpr ⟨ht, ih hall⟩
  | label more ih =>
    obtain ⟨ht, hall⟩ := forall_mem_cons.mp hall
    exact forall_mem_cons.mpr ⟨hAS, forall_mem_cons.mpr ⟨ht, ih hall⟩⟩

theorem forall_mem_of_canon (h : tokens'.map canon = tokens.map canon)
    (hop : ∀ op, P (.operator op)) (hall : ∀ t ∈ tokens, P t) : ∀ t ∈ tokens', P t := by
  intro t' ht'
  have hmem : canon t' ∈ tokens.map canon := h ▸ mem_map_of_mem ht'
  obtain ⟨t, ht, hcanon⟩ := mem_map.mp hmem
  rcases eq_or_of_canon hcanon with rfl | ⟨-, op, -, -, -, rfl⟩
  · exact hall t ht
  · exact hop op

theorem Rewritten.forall_mem (h : Rewritten tokens tokens') (hop : ∀ op, P (.operator op))
    (hAS : P (.keyword .AS)) (hall : ∀ t ∈ tokens, P t) : ∀ t ∈ tokens', P t := by
  obtain ⟨respelled, hcanon, hlabelled⟩ := h
  exact hlabelled.forall_mem hAS (forall_mem_of_canon hcanon hop hall)

/-- An AS before a name joins nothing and comes between no operands. -/
theorem Loose.labelled (hlabelled : Labelled free tokens tokens')
    (hchained : ∀ t ∈ tokens, Chained select unfold t)
    (hout : out.head?.map canon = out'.head?.map canon) (h : Loose select unfold out tokens) :
    Loose select unfold out' tokens' := by
  induction hlabelled generalizing out out' with
  | nil => trivial
  | @cons free t rest rest' more ih =>
    obtain ⟨-, hchained⟩ := forall_mem_cons.mp hchained
    obtain ⟨hjoin, hrest⟩ := h
    refine ⟨fun right hright => ?_, ih hchained (by simp) hrest⟩
    cases hop : t.isOperator with
    | false => exact joinOver?_eq_none hop
    | true =>
      refine joinOver?_eq_none_congr hout (hjoin right ?_)
      rw [hop] at more
      cases more with
      | nil => exact hright
      | @cons _ u rest rest' _ =>
        have hne := (hchained u mem_cons_self).unfold_ne_nil
        rw [flatMap_cons, head?_append_of_ne_nil _ hne] at hright ⊢
        exact hright
  | @label label rest rest' more ih =>
    obtain ⟨-, hchained⟩ := forall_mem_cons.mp hchained
    obtain ⟨-, hrest⟩ := h
    refine ⟨fun _ _ => joinOver?_eq_none rfl, fun _ _ => joinOver?_eq_none rfl, ?_⟩
    exact ih hchained (by simp) hrest

variable (hundo : Undoes unfold select)
include hundo

theorem Labelled.flatMap_unfold (h : Labelled free tokens tokens')
    (hchained : ∀ t ∈ tokens, Chained select unfold t) :
    Labelled free (tokens.flatMap unfold) (tokens'.flatMap unfold) := by
  induction h with
  | nil => exact .nil
  | @cons free t rest rest' more ih =>
    obtain ⟨ht, hrest⟩ := forall_mem_cons.mp hchained
    have hmore := ih hrest
    rw [flatMap_cons, flatMap_cons]
    cases hop : t.isOperator with
    | true =>
      obtain ⟨op, rfl⟩ : ∃ op, t = .operator op := by
        cases t <;> first | exact ⟨_, rfl⟩ | cases hop
      rw [hundo.operator]
      exact .cons hmore
    | false =>
      obtain ⟨xs, last, hunfold, hlast⟩ := ht.getLast?_unfold hop
      rw [hop] at hmore
      rw [hunfold, append_assoc, append_assoc]
      refine .append_left ?_
      rw [hlast]
      exact hmore
  | @label label rest rest' more ih =>
    rw [flatMap_cons, flatMap_cons, flatMap_cons, hundo.name, hundo.keyword]
    exact .label (ih (forall_mem_cons.mp hchained).2)

theorem flatMap_unfold_canon (h : tokens.map canon = tokens'.map canon) :
    (tokens.flatMap unfold).map canon = (tokens'.flatMap unfold).map canon := by
  induction tokens generalizing tokens' with
  | nil =>
    rw [map_eq_nil_iff.mp h.symm]
  | cons t rest ih =>
    cases tokens' with
    | nil => cases h
    | cons t' rest' =>
      obtain ⟨ht, hrest⟩ := cons.inj h
      have hunfold : (unfold t).map canon = (unfold t').map canon := by
        rcases eq_or_of_canon ht with rfl | ⟨op, op', -, -, rfl, rfl⟩
        · rfl
        · rw [hundo.operator, hundo.operator]
          exact congrArg ([·]) ht
      rw [flatMap_cons, flatMap_cons, map_append, map_append, hunfold, ih hrest]

/-- The spelling of an operator that `select` does not know does not matter. -/
theorem Loose.respelled (hselect : ∀ op, op = "!=" ∨ op = "<>" → select op = none)
    (hchained : ∀ t ∈ tokens, Chained select unfold t)
    (hcanon : tokens.map canon = tokens'.map canon)
    (hout : out.head?.map canon = out'.head?.map canon) (h : Loose select unfold out tokens) :
    Loose select unfold out' tokens' := by
  induction tokens generalizing out out' tokens' with
  | nil =>
    rw [map_eq_nil_iff.mp hcanon.symm]
    trivial
  | cons t rest ih =>
    cases tokens' with
    | nil => cases hcanon
    | cons t' rest' =>
      obtain ⟨-, hchained⟩ := forall_mem_cons.mp hchained
      obtain ⟨ht, hrest⟩ := cons.inj hcanon
      obtain ⟨hjoin, hloose⟩ := h
      refine ⟨fun right hright => ?_, ih hchained hrest (by simpa using ht) hloose⟩
      rcases eq_or_of_canon ht with rfl | ⟨-, op, -, hop, -, rfl⟩
      · have hheads := congrArg head? (flatMap_unfold_canon hundo hrest)
        rw [head?_map, head?_map, hright] at hheads
        obtain ⟨right', hright', hright⟩ := Option.map_eq_some_iff.mp hheads
        rcases eq_or_of_canon hright with rfl | ⟨-, op, -, -, -, rfl⟩
        · exact joinOver?_eq_none_congr hout (hjoin right' hright')
        · exact joinOver?_eq_none_of_right rfl
      · exact joinOver?_eq_none_of_select (hselect op hop)

/-! ### One strength of operators -/

/-- Where a level is folded and AS put before some names, it folds again from what it is unfolded to. -/
theorem refold_labelled (hchained : ∀ t ∈ tokens, Chained select unfold t)
    (hloose : Loose select unfold [] tokens) (h : Labelled false tokens tokens') :
    foldBinary select [] (tokens'.flatMap unfold) = tokens' ∧
      Labelled false (tokens.flatMap unfold) (tokens'.flatMap unfold) := by
  refine ⟨?_, h.flatMap_unfold hundo hchained⟩
  have hAS : Chained select unfold (.keyword .AS) := .atom (hundo.keyword .AS)
  exact foldBinary_flatMap_unfold (h.forall_mem hAS hchained) (hloose.labelled h hchained rfl)

theorem foldBinary_loose (htokens : ∀ t ∈ tokens, unfold t = [t]) :
    (∀ t ∈ foldBinary select [] tokens, Chained select unfold t) ∧
      Loose select unfold [] (foldBinary select [] tokens) ∧
      ((foldBinary select [] tokens).flatMap unfold).map canon = tokens.map canon := by
  obtain ⟨done, hdone, hchained, hback, hcanon⟩ :=
    foldBinary_chained hundo htokens (forall_mem_nil _) trivial
  rw [hdone]
  refine ⟨fun t ht => hchained t (mem_reverse.mp ht), ?_, hcanon⟩
  have hloose : Loose select unfold [] (done.reverse ++ []) :=
    hback.loose (fun t ht => (hchained t ht).unfold_ne_nil) trivial
  rwa [append_nil] at hloose

/-- A folded level that is rewritten folds again from what it is unfolded to, which is what was folded
in the first place, rewritten. -/
theorem refold_rewritten (hselect : ∀ op, op = "!=" ∨ op = "<>" → select op = none)
    (htokens : ∀ t ∈ tokens, unfold t = [t]) (h : Rewritten (foldBinary select [] tokens) tokens') :
    foldBinary select [] (tokens'.flatMap unfold) = tokens' ∧
      Rewritten tokens (tokens'.flatMap unfold) := by
  obtain ⟨hchained, hloose, hcanon⟩ := foldBinary_loose hundo htokens
  obtain ⟨respelled, hrespelled, hlabelled⟩ := h
  have hop (op : String) : Chained select unfold (.operator op) := .atom (hundo.operator op)
  obtain ⟨hfold, hunfold⟩ := refold_labelled hundo (forall_mem_of_canon hrespelled hop hchained)
    (hloose.respelled hundo hselect hchained hrespelled.symm rfl) hlabelled
  exact ⟨hfold, _, (flatMap_unfold_canon hundo hrespelled).trans hcanon, hunfold⟩

end

/-! ### Arithmetic and comparisons -/

/-- The token with its operations of one strength taken apart. -/
def unfoldArithmetic (multiplicative : Bool) : Token → List Token
  | .operation left op right =>
    if op.isMultiplicative = multiplicative then
      unfoldArithmetic multiplicative left ++ [.operator op.text, right]
    else [.operation left op right]
  | t => [t]

/-- The token with its comparison taken apart. -/
def unfoldComparison : Token → List Token
  | .comparison left op right => [left, .operator op.text, right]
  | t => [t]

theorem arithmeticOf_eq_some {multiplicative : Bool}
    (h : arithmeticOf multiplicative op = some build) :
    ∃ a : Arithmetic, op = a.text ∧ a.isMultiplicative = multiplicative ∧
      build = fun left right => .operation left a right := by
  unfold arithmeticOf at h
  split at h
  · rename_i a ha
    split at h
    · rename_i hstrength
      cases h
      refine ⟨a, ?_, hstrength, rfl⟩
      unfold Arithmetic.ofOperator? at ha
      grind [Arithmetic.text]
    · cases h
  · cases h

theorem undoes_arithmetic (multiplicative : Bool) :
    Undoes (unfoldArithmetic multiplicative) (arithmeticOf multiplicative) where
  operator _ := rfl
  keyword _ := rfl
  name _ := rfl
  built {op build left} right selects _ := by
    obtain ⟨a, rfl, hstrength, rfl⟩ := arithmeticOf_eq_some selects
    refine ⟨a.text, rfl, selects, rfl, ?_⟩
    rw [unfoldArithmetic, if_pos hstrength]

theorem undoes_comparison : Undoes unfoldComparison comparisonOf where
  operator _ := rfl
  keyword _ := rfl
  name _ := rfl
  built {op build left} right selects left_operand := by
    have hleft : unfoldComparison left = [left] := by
      cases left <;> first | rfl | cases left_operand
    obtain ⟨c, hc, rfl⟩ := Option.map_eq_some_iff.mp selects
    refine ⟨c.text, ?_, ?_, rfl, ?_⟩
    · unfold Comparison.ofOperator? at hc
      grind [canon, Comparison.text]
    · cases c <;> rfl
    · rw [hleft]
      rfl

theorem arithmeticOf_notEqual (multiplicative : Bool) (op : String) (h : op = "!=" ∨ op = "<>") :
    arithmeticOf multiplicative op = none := by
  rcases h with rfl | rfl <;> rfl

/-! ### Aliases -/

/-- The token with its alias behind an AS. -/
def unalias : Token → List Token
  | .aliased t label => [t, .keyword .AS, .name none label]
  | t => [t]

theorem unalias_aliased (t : Token) (label : String) :
    unalias (.aliased t label) = [t, .keyword .AS, .name none label] := rfl

theorem aliasAfterAs?_keyword (out : List Token) (t : Token) (k : Keyword) :
    aliasAfterAs? out t (.keyword k) = none := by
  unfold aliasAfterAs?
  split
  · cases ‹_›
  · rfl

/-- Whether the last token that is done is no operator. -/
def endsFree (out : List Token) : Bool := out.head?.any fun t => !t.isOperator

theorem aliasAfterAs?_eq_some {out out' : List Token} {next : Token}
    (h : aliasAfterAs? out t next = some out') :
    ∃ label target rest, t = .keyword .AS ∧ next = .name none label ∧ out = target :: rest ∧
      target.isAliasable = true ∧ out' = .aliased target label :: rest := by
  unfold aliasAfterAs? at h
  split at h
  · rename_i label target rest
    split at h
    · rename_i htarget
      cases h
      exact ⟨label, target, rest, rfl, rfl, rfl, htarget, rfl⟩
    · cases h
  · cases h

/-- A token is added as it is, or as the alias that it would also be behind an AS. -/
theorem pushAlias_cases (out : List Token) (t : Token) : pushAlias out t = t :: out ∨
      ∃ label target rest, t = .name none label ∧ out = target :: rest ∧
        target.isAliasable = true ∧ pushAlias out t = .aliased target label :: rest ∧
        aliasAfterAs? out (.keyword .AS) t = some (pushAlias out t) := by
  unfold pushAlias
  split
  · rename_i label target rest
    split
    · rename_i htarget
      exact .inr ⟨label, target, rest, rfl, rfl, htarget, rfl, by simp [aliasAfterAs?, htarget]⟩
    · exact .inl rfl
  · exact .inl rfl

theorem unalias_of_isAliasable (h : t.isAliasable = true) :
    unalias t = [t] ∧ t.isOperator = false := by
  cases t <;> first | exact ⟨rfl, rfl⟩ | cases h

/-- Folding aliases gives the same tokens where every alias has its AS. -/
theorem foldAliases_unalias (out : List Token) (htokens : ∀ t ∈ tokens, unalias t = [t]) :
    ∃ tokens', foldAliases out tokens' = foldAliases out tokens ∧
      Labelled (endsFree out) tokens tokens' ∧
      (foldAliases out tokens).flatMap unalias = out.reverse.flatMap unalias ++ tokens' := by
  fun_induction foldAliases out tokens with
  | case1 out => exact ⟨[], rfl, .nil, by simp⟩
  | case2 out t =>
    have ht := htokens t mem_cons_self
    rcases pushAlias_cases out t with hpush | ⟨label, target, rest, rfl, rfl, htarget, hpush, halias⟩
    · exact ⟨[t], rfl, .cons .nil, by simp [hpush, ht]⟩
    · obtain ⟨hunalias, hop⟩ := unalias_of_isAliasable htarget
      refine ⟨[.keyword .AS, .name none label], ?_, ?_, ?_⟩
      · rw [foldAliases, halias]
        rfl
      · rw [show endsFree (target :: rest) = true by simp [endsFree, hop]]
        exact .label .nil
      · simp [hpush, hunalias, unalias_aliased]
  | case3 out t next rest out' halias ih =>
    obtain ⟨label, target, before, rfl, rfl, rfl, htarget, rfl⟩ := aliasAfterAs?_eq_some halias
    obtain ⟨hunalias, -⟩ := unalias_of_isAliasable htarget
    obtain ⟨-, htokens⟩ := forall_mem_cons.mp htokens
    obtain ⟨tokens', hfold, hlabelled, hunfold⟩ := ih (forall_mem_cons.mp htokens).2
    refine ⟨.keyword .AS :: .name none label :: tokens', ?_, .cons (.cons hlabelled), ?_⟩
    · rw [foldAliases, halias]
      exact hfold
    · rw [hunfold]
      simp [hunalias, unalias_aliased]
  | case4 out t next rest halias ih =>
    obtain ⟨ht, htokens⟩ := forall_mem_cons.mp htokens
    obtain ⟨tokens', hfold, hlabelled, hunfold⟩ := ih htokens
    rcases pushAlias_cases out t with hpush | ⟨label, target, before, rfl, rfl, htarget, hpush, hAS⟩
    · rw [hpush] at hfold hlabelled hunfold
      refine ⟨t :: tokens', ?_, .cons (by simpa [endsFree] using hlabelled), ?_⟩
      · rw [hpush, ← hfold]
        -- what comes next is the name that came next before, or an AS
        obtain ⟨more, rfl | rfl⟩ := hlabelled.cases_cons
        · rw [foldAliases, halias, hpush]
        · rw [foldAliases, aliasAfterAs?_keyword, hpush]
      · rw [hpush, hunfold]
        simp [ht]
    · obtain ⟨hunalias, hop⟩ := unalias_of_isAliasable htarget
      rw [hpush] at hlabelled
      refine ⟨.keyword .AS :: .name none label :: tokens', ?_, ?_, ?_⟩
      · rw [foldAliases, hAS]
        exact hfold
      · rw [show endsFree (target :: before) = true by simp [endsFree, hop]]
        exact .label hlabelled
      · rw [hunfold, hpush]
        simp [hunalias, unalias_aliased]

theorem forall_foldAliases (halias : ∀ {t label}, t.isAliasable = true → P t → P (.aliased t label))
    {out : List Token} (hout : ∀ t ∈ out, P t) (htokens : ∀ t ∈ tokens, P t) :
    ∀ t ∈ foldAliases out tokens, P t := by
  have hpush {out : List Token} {t : Token} (hout : ∀ u ∈ out, P u) (ht : P t) :
      ∀ u ∈ pushAlias out t, P u := by
    rcases pushAlias_cases out t with hpush | ⟨label, target, rest, rfl, rfl, htarget, hpush, -⟩
    · rw [hpush]
      exact forall_mem_cons.mpr ⟨ht, hout⟩
    · obtain ⟨hP, hrest⟩ := forall_mem_cons.mp hout
      rw [hpush]
      exact forall_mem_cons.mpr ⟨halias htarget hP, hrest⟩
  fun_induction foldAliases out tokens with
  | case1 out => exact fun t ht => hout t (mem_reverse.mp ht)
  | case2 out t =>
    exact fun u hu => hpush hout (htokens t mem_cons_self) u (mem_reverse.mp hu)
  | case3 out t next rest out' has ih =>
    obtain ⟨label, target, before, rfl, rfl, rfl, htarget, rfl⟩ := aliasAfterAs?_eq_some has
    obtain ⟨hP, hbefore⟩ := forall_mem_cons.mp hout
    obtain ⟨-, htokens⟩ := forall_mem_cons.mp htokens
    exact ih (forall_mem_cons.mpr ⟨halias htarget hP, hbefore⟩) (forall_mem_cons.mp htokens).2
  | case4 out t next rest _ ih =>
    obtain ⟨ht, htokens⟩ := forall_mem_cons.mp htokens
    exact ih (hpush hout ht) htokens

/-- What holds of the tokens of a level, and of whatever operators and aliases make of such tokens,
holds of the folded level. -/
theorem forall_foldLevel
    (hoperation : ∀ {left a right}, left.isOperand = true → right.isOperand = true → P left → P right →
      P (.operation left a right))
    (hcomparison : ∀ {left c right}, left.isOperand = true → right.isOperand = true → P left →
      P right → P (.comparison left c right))
    (halias : ∀ {t label}, t.isAliasable = true → P t → P (.aliased t label))
    (h : ∀ t ∈ tokens, P t) : ∀ t ∈ foldLevel tokens, P t := by
  have harithmetic (multiplicative : Bool) {tokens : List Token} (h : ∀ t ∈ tokens, P t) :
      ∀ t ∈ foldBinary (arithmeticOf multiplicative) [] tokens, P t := by
    refine forall_foldBinary (fun hop hleft hright => ?_) (forall_mem_nil _) h
    obtain ⟨a, -, -, rfl⟩ := arithmeticOf_eq_some hop
    exact hoperation hleft hright
  refine forall_foldAliases halias (forall_mem_nil _) ?_
  refine forall_foldBinary (fun hop hleft hright => ?_) (forall_mem_nil _)
    (harithmetic false (harithmetic true h))
  obtain ⟨c, -, rfl⟩ := Option.map_eq_some_iff.mp hop
  exact hcomparison hleft hright

/-! ### Spreading a level -/

/-- The token with its operators and its alias beside their operands. -/
def spread : Token → List Token
  | .comparison left op right => spread left ++ .operator op.text :: spread right
  | .operation left op right => spread left ++ .operator op.text :: spread right
  | .aliased t label => spread t ++ [.keyword .AS, .name none label]
  | t => [t]

theorem spread_unalias (t : Token) : (unalias t).flatMap spread = spread t := by
  cases t <;> simp [unalias, spread]

theorem spread_unfoldComparison (t : Token) : (unfoldComparison t).flatMap spread = spread t := by
  cases t <;> simp [unfoldComparison, spread]

theorem spread_unfoldArithmetic (multiplicative : Bool) (t : Token) :
    (unfoldArithmetic multiplicative t).flatMap spread = spread t := by
  fun_induction unfoldArithmetic multiplicative t with
  | case1 left op right hstrength ih => simp [ih, spread]
  | case2 left op right hstrength => simp
  | case3 t hne => simp

/-- A token that cannot be spread stands alone in every way to unfold it. -/
theorem unfolds_of_spread (h : spread t = [t]) :
    (∀ multiplicative, unfoldArithmetic multiplicative t = [t]) ∧ unfoldComparison t = [t] ∧
      unalias t = [t] := by
  cases t <;> first | exact ⟨fun _ => rfl, rfl, rfl⟩ | simp [spread, append_eq_cons_iff] at h

theorem flatMap_spread_unfold {unfold : Token → List Token}
    (h : ∀ t, (unfold t).flatMap spread = spread t) (tokens : List Token) :
    (tokens.flatMap unfold).flatMap spread = tokens.flatMap spread := by
  rw [flatMap_assoc]
  simp only [h]

theorem flatMap_spread_eq (h : ∀ t ∈ tokens, spread t = [t]) : tokens.flatMap spread = tokens := by
  induction tokens with
  | nil => rfl
  | cons t rest ih =>
    obtain ⟨ht, hrest⟩ := forall_mem_cons.mp h
    rw [flatMap_cons, ht, ih hrest, singleton_append]

/-- What a level is spread to folds into the same tokens, and is what was folded, rewritten. -/
theorem foldLevel_spread (h : ∀ t ∈ tokens, spread t = [t]) :
    foldLevel ((foldLevel tokens).flatMap spread) = foldLevel tokens ∧
      Rewritten tokens ((foldLevel tokens).flatMap spread) := by
  -- The strengths are folded one after the other, and unfolded in the opposite order.
  have hproducts : ∀ t ∈ foldBinary (arithmeticOf true) [] tokens,
      unfoldArithmetic false t = [t] ∧ unfoldComparison t = [t] ∧ unalias t = [t] := by
    refine forall_foldBinary (fun hop _ _ _ _ => ?_) (forall_mem_nil _) fun t ht =>
      ⟨(unfolds_of_spread (h t ht)).1 false, (unfolds_of_spread (h t ht)).2⟩
    obtain ⟨a, -, hstrength, rfl⟩ := arithmeticOf_eq_some hop
    exact ⟨by simp [unfoldArithmetic, hstrength], rfl, rfl⟩
  generalize hproduct : foldBinary (arithmeticOf true) [] tokens = product at hproducts
  have hsums : ∀ t ∈ foldBinary (arithmeticOf false) [] product,
      unfoldComparison t = [t] ∧ unalias t = [t] := by
    refine forall_foldBinary (fun hop _ _ _ _ => ?_) (forall_mem_nil _) fun t ht => (hproducts t ht).2
    obtain ⟨a, -, -, rfl⟩ := arithmeticOf_eq_some hop
    exact ⟨rfl, rfl⟩
  generalize hsum : foldBinary (arithmeticOf false) [] product = sum at hsums
  have hcompared : ∀ t ∈ foldBinary comparisonOf [] sum, unalias t = [t] := by
    refine forall_foldBinary (fun hop _ _ _ _ => ?_) (forall_mem_nil _) fun t ht => (hsums t ht).2
    obtain ⟨c, -, rfl⟩ := Option.map_eq_some_iff.mp hop
    rfl
  have hlevel : foldLevel tokens = foldAliases [] (foldBinary comparisonOf [] sum) := by
    rw [foldLevel, hproduct, hsum]
  obtain ⟨hchained, hloose, hcanon⟩ := foldBinary_loose undoes_comparison fun t ht => (hsums t ht).1
  obtain ⟨labelled, haliases, hlabelled, hunalias⟩ := foldAliases_unalias [] hcompared
  obtain ⟨hcomparisons, hsum'⟩ := refold_labelled undoes_comparison hchained hloose hlabelled
  have hsum' : Rewritten sum (labelled.flatMap unfoldComparison) := ⟨_, hcanon, hsum'⟩
  rw [← hsum] at hsum'
  obtain ⟨hadditive, hproduct'⟩ := refold_rewritten (undoes_arithmetic false)
    (arithmeticOf_notEqual false) (fun t ht => (hproducts t ht).1) hsum'
  rw [← hproduct] at hproduct'
  obtain ⟨hmultiplicative, hrewritten⟩ := refold_rewritten (undoes_arithmetic true)
    (arithmeticOf_notEqual true) (fun t ht => (unfolds_of_spread (h t ht)).1 true) hproduct'
  have hspread : (foldLevel tokens).flatMap spread =
      ((labelled.flatMap unfoldComparison).flatMap (unfoldArithmetic false)).flatMap
        (unfoldArithmetic true) := by
    rw [← flatMap_spread_eq (hrewritten.forall_mem (fun _ => rfl) rfl h),
      flatMap_spread_unfold (spread_unfoldArithmetic true),
      flatMap_spread_unfold (spread_unfoldArithmetic false),
      flatMap_spread_unfold spread_unfoldComparison, hlevel, ← flatMap_spread_unfold spread_unalias,
      hunalias]
    simp
  rw [hspread]
  refine ⟨?_, hrewritten⟩
  rw [foldLevel, hmultiplicative, hadditive, hcomparisons, haliases, hlevel]

end Token

end DocSql
