import DocSql.Proofs.Renumbering

/-! # Placeholders in tokens

Lexemes are put together to tokens inside tokens: calls, parentheses, operations, CASE expressions
and aliases.  A placeholder is never made up on the way (`below_group`), so that every index in the
tokens of a statement is below the number of parameters that it asks for.
-/
namespace DocSql
open List

variable {tokens : List Token}

/-! ### The placeholders of tokens -/

namespace Token

variable {t left right : Token}

mutual

/-- The indices of the placeholders in a token, at any depth. -/
def holes : Token → List Nat
  | .placeholder index => [index]
  | .paren inner => holesAll inner
  | .call _ args => holesArgs args
  | .comparison left _ right => holes left ++ holes right
  | .operation left _ right => holes left ++ holes right
  | .caseOf operand arms => holesAll operand ++ holesArms arms
  | .aliased token _ => holes token
  | _ => []

/-- The indices of the placeholders in tokens. -/
def holesAll : List Token → List Nat
  | [] => []
  | t :: rest => holes t ++ holesAll rest

/-- The indices of the placeholders in the arguments of a call. -/
def holesArgs : List (List Token) → List Nat
  | [] => []
  | arg :: rest => holesAll arg ++ holesArgs rest

/-- The indices of the placeholders in the branches of a CASE expression. -/
def holesArms : TokenArms → List Nat
  | .done => []
  | .otherwise body => holesAll body
  | .arm condition result rest => holesAll condition ++ holesAll result ++ holesArms rest

end

variable {n : Nat}

/-- Every placeholder in the tokens has an index below the bound. -/
def Below (n : Nat) (tokens : List Token) : Prop := ∀ i ∈ holesAll tokens, i < n

/-- Every placeholder in the branches has an index below the bound. -/
def ArmsBelow (n : Nat) (arms : TokenArms) : Prop := ∀ i ∈ holesArms arms, i < n

@[simp] theorem below_nil : Below n [] := nofun

/-- The first token is taken apart from the others. -/
theorem below_cons {rest : List Token} : Below n (t :: rest) ↔ Below n [t] ∧ Below n rest := by
  show (∀ i ∈ holes t ++ holesAll rest, i < n) ↔ (∀ i ∈ holes t ++ [], i < n) ∧ _
  rw [append_nil, forall_mem_append]
  rfl

theorem below_iff : Below n tokens ↔ ∀ t ∈ tokens, Below n [t] := by
  induction tokens with
  | nil => simp
  | cons t rest ih => rw [below_cons, ih, forall_mem_cons]

theorem below_singleton : Below n [t] ↔ ∀ i ∈ t.holes, i < n := by
  show (∀ i ∈ holes t ++ [], i < n) ↔ _
  rw [append_nil]

@[simp] theorem below_reverse : Below n tokens.reverse ↔ Below n tokens := by
  rw [below_iff, below_iff]
  simp

theorem Below.subset {tokens' : List Token} (h : Below n tokens) (hsub : tokens' ⊆ tokens) :
    Below n tokens' :=
  below_iff.mpr fun t ht => below_iff.mp h t (hsub ht)

@[simp] theorem below_placeholder {i : Nat} : Below n [.placeholder i] ↔ i < n :=
  below_singleton.trans forall_mem_singleton

@[simp] theorem below_paren {inner : List Token} : Below n [.paren inner] ↔ Below n inner :=
  below_singleton

@[simp] theorem below_call {fn : String} {args : List (List Token)} :
    Below n [.call fn args] ↔ ∀ arg ∈ args, Below n arg := by
  rw [below_singleton]
  show (∀ i ∈ holesArgs args, i < n) ↔ _
  induction args with
  | nil => exact ⟨fun _ => nofun, fun _ => nofun⟩
  | cons arg args ih =>
    rw [forall_mem_cons, ← ih]
    exact forall_mem_append

/-- A token that joins two others holds their placeholders. -/
theorem below_joined (h : t.holes = left.holes ++ right.holes) :
    Below n [t] ↔ Below n [left] ∧ Below n [right] := by
  rw [below_singleton, h, forall_mem_append, below_singleton, below_singleton]

@[simp] theorem below_comparison {op : Comparison} :
    Below n [.comparison left op right] ↔ Below n [left] ∧ Below n [right] :=
  below_joined rfl

@[simp] theorem below_operation {op : Arithmetic} :
    Below n [.operation left op right] ↔ Below n [left] ∧ Below n [right] :=
  below_joined rfl

@[simp] theorem below_caseOf {operand : List Token} {arms : TokenArms} :
    Below n [.caseOf operand arms] ↔ Below n operand ∧ ArmsBelow n arms :=
  below_singleton.trans forall_mem_append

@[simp] theorem below_aliased {label : String} : Below n [.aliased t label] ↔ Below n [t] :=
  below_singleton.trans below_singleton.symm

@[simp] theorem armsBelow_otherwise {body : List Token} :
    ArmsBelow n (.otherwise body) ↔ Below n body := Iff.rfl

@[simp] theorem armsBelow_arm {condition result : List Token} {rest : TokenArms} :
    ArmsBelow n (.arm condition result rest) ↔
      Below n condition ∧ Below n result ∧ ArmsBelow n rest := by
  show (∀ i ∈ holesAll condition ++ holesAll result ++ holesArms rest, i < n) ↔ _
  rw [forall_mem_append, forall_mem_append, and_assoc]
  rfl

/-! ### Tokens of lexemes -/

theorem subset_of_mem_pieces {piece : List Token} (h : piece ∈ splitCommas.pieces tokens) :
    piece ⊆ tokens := by
  fun_induction splitCommas.pieces tokens generalizing piece with
  | case1 =>
    obtain rfl := mem_singleton.mp h
    exact nil_subset _
  | case2 t rest hcomma ih =>
    rcases mem_cons.mp h with rfl | h
    · exact nil_subset _
    · exact subset_cons_of_subset _ (ih h)
  | case3 t rest hcomma hnil ih =>
    obtain rfl := mem_singleton.mp h
    exact cons_subset_cons t (nil_subset _)
  | case4 t rest hcomma first more hpieces ih =>
    rw [hpieces] at ih
    rcases mem_cons.mp h with rfl | h
    · exact cons_subset_cons t (ih mem_cons_self)
    · exact subset_cons_of_subset _ (ih (mem_cons_of_mem _ h))

theorem below_splitCommas {piece : List Token} (htokens : Below n tokens)
    (h : piece ∈ splitCommas tokens) : Below n piece := by
  unfold splitCommas at h
  split at h
  · cases h
  · exact htokens.subset (subset_of_mem_pieces h)

mutual

/-- Other indices are the indices of the renumbered token. -/
theorem holes_renumber (f : Nat → Nat) : ∀ t : Token, (t.renumber f).holes = t.holes.map f
  | .placeholder _ => rfl
  | .paren inner => holesAll_renumber f inner
  | .call _ args => holesArgs_renumber f args
  | .comparison left _ right | .operation left _ right => by
    rw [renumber, holes, holes, map_append, holes_renumber f left, holes_renumber f right]
  | .caseOf operand arms => by
    rw [renumber, holes, holes, map_append, holesAll_renumber f operand, holesArms_renumber f arms]
  | .aliased token _ => holes_renumber f token
  | .keyword _ | .name _ _ | .literal _ | .operator _ | .wildcard | .punctuation _ => rfl

theorem holesAll_renumber (f : Nat → Nat) :
    ∀ tokens : List Token, holesAll (renumberAll f tokens) = (holesAll tokens).map f
  | [] => rfl
  | t :: rest => by
    rw [renumberAll, holesAll, holesAll, map_append, holes_renumber f t, holesAll_renumber f rest]

theorem holesArgs_renumber (f : Nat → Nat) :
    ∀ args : List (List Token), holesArgs (renumberArgs f args) = (holesArgs args).map f
  | [] => rfl
  | arg :: rest => by
    rw [renumberArgs, holesArgs, holesArgs, map_append, holesAll_renumber f arg,
      holesArgs_renumber f rest]

theorem holesArms_renumber (f : Nat → Nat) :
    ∀ arms : TokenArms, holesArms (renumberArms f arms) = (holesArms arms).map f
  | .done => rfl
  | .otherwise body => holesAll_renumber f body
  | .arm condition result rest => by
    rw [renumberArms, holesArms, holesArms, map_append, map_append,
      holesAll_renumber f condition, holesAll_renumber f result, holesArms_renumber f rest]

end

end Token

end DocSql
