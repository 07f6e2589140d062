import DocSql.Proofs.LevelUnfolding

/-! # Unfolding CASE expressions

`flat` writes a token out as the tokens of its level: operators and aliases beside their operands, and
a CASE expression between its keywords.  What a finished level is written out as finishes to the same
level again (`finished_of_finish`), and any two of these tokens stand side by side as they did where
the level was finished the first time, keywords and aliases aside (`Chain`).
-/
namespace DocSql
open Compiled List

namespace Token

variable {tokens tokens' body xs : List Token} {t : Token} {k : Keyword} {P Q : List Token → Prop}
  {branches : List (List Token × List Token)} {otherwise : Option (List Token)}

/-! ### The tokens of a level -/

mutual

/-- The token as the tokens that it is folded from. -/
def flat : Token → List Token
  | .comparison left op right => flat left ++ .operator op.text :: flat right
  | .operation left op right => flat left ++ .operator op.text :: flat right
  | .caseOf operand arms =>
    .keyword .CASE :: (flatAll operand ++ flatArms arms ++ [.keyword .END])
  | .aliased t label => flat t ++ [.keyword .AS, .name none label]
  | t => [t]

/-- The tokens of a level. -/
def flatAll : List Token → List Token
  | [] => []
  | t :: rest => flat t ++ flatAll rest

/-- The branches of a CASE expression, behind their keywords. -/
def flatArms : TokenArms → List Token
  | .done => []
  | .otherwise body => .keyword .ELSE :: flatAll body
  | .arm condition result rest =>
    .keyword .WHEN :: (flatAll condition ++ .keyword .THEN :: (flatAll result ++ flatArms rest))

end

/-- The lists of tokens that the branches of a CASE expression hold. -/
def armParts : TokenArms → List (List Token)
  | .done => []
  | .otherwise body => [body]
  | .arm condition result rest => condition :: result :: armParts rest

/-- The lists of tokens that a token holds. -/
def parts : Token → List (List Token)
  | .paren inner => [inner]
  | .call _ args => args
  | .comparison left _ right => [[left], [right]]
  | .operation left _ right => [[left], [right]]
  | .caseOf operand arms => operand :: armParts arms
  | .aliased t _ => [[t]]
  | _ => []

theorem flatAll_append (tokens tokens' : List Token) :
    flatAll (tokens ++ tokens') = flatAll tokens ++ flatAll tokens' := by
  induction tokens with
  | nil => rfl
  | cons t rest ih => rw [cons_append, flatAll, flatAll, ih, append_assoc]

theorem flat_ne_nil (t : Token) : flat t ≠ [] := by
  cases t <;> simp [flat]

theorem flatAll_eq_nil : flatAll tokens = [] ↔ tokens = [] := by
  cases tokens with
  | nil => simp [flatAll]
  | cons t rest => simp [flatAll, flat_ne_nil]

theorem flatAll_spread (t : Token) : flatAll (spread t) = flat t := by
  fun_induction spread t with
  | case1 left op right ihleft ihright
  | case2 left op right ihleft ihright => simp [flatAll_append, flatAll, flat, ihleft, ihright]
  | case3 t label ih => simp [flatAll_append, flatAll, flat, ih]
  | case4 t => simp [flatAll]

theorem flatAll_flatMap_spread (tokens : List Token) :
    flatAll (tokens.flatMap spread) = flatAll tokens := by
  induction tokens with
  | nil => rfl
  | cons t rest ih => rw [flatMap_cons, flatAll_append, flatAll_spread, ih, flatAll]

theorem spread_of_flat (h : flat t = [t]) : spread t = [t] := by
  cases t <;> first | rfl | simp [flat, append_eq_cons_iff] at h

/-! ### Balanced CASE keywords -/

section

variable {n : Nat} {rest : List Token}

theorem caseParts_end : caseParts (n + 1) (.keyword .END :: rest) =
    (.keyword .END :: (caseParts n rest).1, (caseParts n rest).2) := by
  simp [caseParts, isKeyword]

theorem caseParts_case : caseParts n (.keyword .CASE :: rest) =
    (.keyword .CASE :: (caseParts (n + 1) rest).1, (caseParts (n + 1) rest).2) := by
  simp [caseParts, isKeyword, caseMark?]

theorem caseParts_other (hend : t.isKeyword .END = false) (hcase : t.isKeyword .CASE = false)
    (hmark : n = 0 → caseMark? t = none) :
    caseParts n (t :: rest) = (t :: (caseParts n rest).1, (caseParts n rest).2) := by
  have hnone : (if n = 0 then caseMark? t else none) = none := by
    split
    · exact hmark ‹_›
    · rfl
  simp [caseParts, hend, hcase, hnone]

theorem caseParts_mark {mark : CaseMark} (hmark : caseMark? t = some mark) :
    caseParts 0 (t :: rest) = ([], (mark, (caseParts 0 rest).1) :: (caseParts 0 rest).2) := by
  have hother : t.isKeyword .CASE = false ∧ t.isKeyword .END = false := by
    unfold caseMark? at hmark
    split at hmark
    all_goals first | exact ⟨rfl, rfl⟩ | cases hmark
  simp [caseParts, hmark, hother]

end

namespace Closes

variable {marks : Bool} {n : Nat} {ys : List Token}

theorem append (hxs : Closes marks n xs) (hys : Closes marks 0 ys) : Closes marks n (xs ++ ys) := by
  induction hxs with
  | nil => exact hys
  | leave _ ih => exact .leave ih
  | enter _ ih => exact .enter ih
  | other hend hcase hmark _ ih => exact .other hend hcase hmark ih

/-- Marks are allowed inside of a CASE expression. -/
theorem append_end (hxs : Closes true n xs) (hys : Closes marks 0 ys) :
    Closes marks (n + 1) (xs ++ .keyword .END :: ys) := by
  induction hxs with
  | nil => exact .leave hys
  | leave _ ih => exact .leave ih
  | enter _ ih => exact .enter ih
  | other hend hcase _ _ ih => exact .other hend hcase nofun ih

theorem allow (h : Closes false n xs) : Closes true n xs := by
  induction h with
  | nil => exact .nil
  | leave _ ih => exact .leave ih
  | enter _ ih => exact .enter ih
  | other hend hcase _ _ ih => exact .other hend hcase (fun _ => nofun) ih

/-- No part of a CASE expression ends among the tokens. -/
theorem caseParts_append (h : Closes false n xs) (rest : List Token) :
    caseParts n (xs ++ rest) = (xs ++ (caseParts 0 rest).1, (caseParts 0 rest).2) := by
  induction h with
  | nil => rfl
  | leave _ ih => rw [cons_append, caseParts_end, ih, cons_append]
  | enter _ ih => rw [cons_append, caseParts_case, ih, cons_append]
  | other hend hcase hmark _ ih =>
    rw [cons_append, caseParts_other hend hcase (hmark · rfl), ih, cons_append]

/-- The parts of a CASE expression are balanced, and no mark is left in them. -/
theorem of_caseParts (h : Closes true n xs) : Closes false n (caseParts n xs).1 ∧
    ∀ part ∈ (caseParts n xs).2, Closes false 0 part.2 := by
  induction h with
  | nil => exact ⟨.nil, nofun⟩
  | leave _ ih =>
    exact ⟨.leave ih.1, ih.2⟩
  | enter _ ih =>
    rw [caseParts_case]
    exact ⟨.enter ih.1, ih.2⟩
  | @other n t xs hend hcase _ _ ih =>
    by_cases hmark : n = 0 → caseMark? t = none
    · rw [caseParts_other hend hcase hmark]
      exact ⟨.other hend hcase (fun hn _ => hmark hn) ih.1, ih.2⟩
    · obtain ⟨rfl, hmark'⟩ := Classical.not_imp.mp hmark
      obtain ⟨mark, hmark'⟩ := Option.ne_none_iff_exists'.mp hmark'
      rw [caseParts_mark hmark']
      exact ⟨.nil, forall_mem_cons.mpr ⟨ih.1, ih.2⟩⟩

/-- What stands behind a CASE expression is balanced. -/
theorem of_append_end {after : List Token} (hbody : Closes true n body)
    (h : Closes marks (n + 1) (body ++ .keyword .END :: after)) : Closes marks 0 after := by
  induction hbody with
  | nil =>
    cases h with
    | leave more => exact more
    | other hend => cases hend
  | leave _ ih =>
    cases h with
    | leave more => exact ih more
    | other hend => cases hend
  | enter _ ih =>
    cases h with
    | enter more => exact ih more
    | other _ hcase => cases hcase
  | other hend hcase _ _ ih =>
    cases h with
    | leave => cases hend
    | enter => cases hcase
    | other _ _ _ more => exact ih more

end Closes

/-! ### The parts of a CASE expression -/

/-- The conditions and the ELSE branch have one property, the results another one. -/
def ArmsAll (P Q : List Token → Prop) : TokenArms → Prop
  | .done => True
  | .otherwise body => P body
  | .arm condition result rest => P condition ∧ Q result ∧ ArmsAll P Q rest

/-- Whether there is a WHEN branch. -/
def hasArm : TokenArms → Bool
  | .arm .. => true
  | _ => false

/-- The branches as the marked parts that they are read from. -/
def partsOf : TokenArms → List (CaseMark × List Token)
  | .done => []
  | .otherwise body => [(.elsePart, flatAll body)]
  | .arm condition result rest =>
    (.whenPart, flatAll condition) :: (.thenPart, flatAll result) :: partsOf rest

theorem ArmsAll.imp {P' Q' : List Token → Prop} (hP : ∀ xs, P xs → P' xs) (hQ : ∀ xs, Q xs → Q' xs)
    : ∀ {arms : TokenArms}, ArmsAll P Q arms → ArmsAll P' Q' arms
  | .done, _ => trivial
  | .otherwise _, h => hP _ h
  | .arm .., ⟨hcondition, hresult, hrest⟩ => ⟨hP _ hcondition, hQ _ hresult, hrest.imp hP hQ⟩

theorem armsAll_armsOf (hbranches : ∀ b ∈ branches, P b.1 ∧ Q b.2)
    (hotherwise : ∀ body, otherwise = some body → P body) :
    ArmsAll P Q (armsOf branches otherwise) := by
  induction branches with
  | nil =>
    cases otherwise with
    | none => trivial
    | some body => exact hotherwise body rfl
  | cons b rest ih =>
    obtain ⟨hb, hrest⟩ := forall_mem_cons.mp hbranches
    exact ⟨hb.1, hb.2, ih hrest⟩

section

variable {f : List Token → Except ParseError (List Token)}

/-- What the branches hold is finished from the parts, a result from one with tokens. -/
theorem armsAll_of_readArms {parts : List (CaseMark × List Token)} {arms : TokenArms}
    (hP : ∀ part ∈ parts, ∀ xs, f part.2 = .ok xs → P xs)
    (hQ : ∀ part ∈ parts, part.2 ≠ [] → ∀ xs, f part.2 = .ok xs → Q xs)
    (hbranches : ∀ b ∈ branches, P b.1 ∧ Q b.2)
    (hotherwise : ∀ body, otherwise = some body → P body)
    (h : readArms f parts branches otherwise = .ok arms) :
    ArmsAll P Q arms ∧ hasArm arms = true := by
  fun_induction readArms f parts branches otherwise with
  | case1 => cases h
  | case2 branches otherwise hempty =>
    cases h
    refine ⟨armsAll_armsOf (fun b hb => hbranches b (mem_reverse.mp hb)) hotherwise, ?_⟩
    cases hreverse : branches.reverse with
    | nil => simp_all
    | cons b rest => rfl
  | case3 condition t result rest branches otherwise ih =>
    obtain ⟨hcondition, hP⟩ := forall_mem_cons.mp hP
    obtain ⟨-, hP⟩ := forall_mem_cons.mp hP
    obtain ⟨-, hQ⟩ := forall_mem_cons.mp hQ
    obtain ⟨hresult, hQ⟩ := forall_mem_cons.mp hQ
    obtain ⟨condition', hcondition', h⟩ := bind_eq_ok.mp h
    obtain ⟨result', hresult', h⟩ := bind_eq_ok.mp h
    refine ih _ _ hP hQ (forall_mem_cons.mpr ⟨?_, hbranches⟩) hotherwise h
    exact ⟨hcondition _ hcondition', hresult (cons_ne_nil _ _) _ hresult'⟩
  | case4 => cases h
  | case5 body rest branches ih =>
    obtain ⟨hbody, hP⟩ := forall_mem_cons.mp hP
    obtain ⟨-, hQ⟩ := forall_mem_cons.mp hQ
    obtain ⟨body', hbody', h⟩ := bind_eq_ok.mp h
    refine ih _ hP hQ hbranches ?_ h
    rintro _ ⟨⟩
    exact hbody _ hbody'
  | case6 => cases h

end

/-- The branches are read from their own parts. -/
theorem readArms_partsOf {f : List Token → Except ParseError (List Token)} : ∀ {arms : TokenArms}
    {branches : List (List Token × List Token)},
    ArmsAll (fun xs => f (flatAll xs) = .ok xs) (fun xs => f (flatAll xs) = .ok xs ∧ xs ≠ []) arms →
    (hasArm arms = true ∨ branches ≠ []) →
    readArms f (partsOf arms) branches none =
      .ok (branches.foldl (fun rest b => .arm b.1 b.2 rest) arms)
  | .done, branches, _, hsome => by
    have hne : branches.isEmpty = false := by
      rcases hsome with hsome | hsome
      · cases hsome
      · simpa using hsome
    rw [partsOf, readArms, if_neg (by simp [hne]), armsOf, foldr_reverse]
  | .otherwise body, branches, hbody, hsome => by
    have hne : branches.isEmpty = false := by
      rcases hsome with hsome | hsome
      · cases hsome
      · simpa using hsome
    rw [partsOf, readArms, show f (flatAll body) = .ok body from hbody, ok_bind, readArms,
      if_neg (by simp [hne]), armsOf, foldr_reverse]
  | .arm condition result rest, branches, ⟨hcondition, ⟨hresult, hne⟩, hrest⟩, _ => by
    obtain ⟨t, more, hflat⟩ := exists_cons_of_ne_nil (mt flatAll_eq_nil.mp hne)
    rw [hflat] at hresult
    rw [partsOf, hflat, readArms, hcondition, ok_bind, hresult, ok_bind,
      readArms_partsOf hrest (.inr (cons_ne_nil _ _))]
    rfl

theorem caseParts_flatArms : ∀ {arms : TokenArms},
    ArmsAll (fun xs => Closes false 0 (flatAll xs)) (fun xs => Closes false 0 (flatAll xs)) arms →
    caseParts 0 (flatArms arms) = ([], partsOf arms)
  | .done, _ => rfl
  | .otherwise body, hbody => by
    have hparts := Closes.caseParts_append hbody []
    rw [append_nil] at hparts
    rw [flatArms, caseParts_mark (show caseMark? (.keyword .ELSE) = some .elsePart from rfl), hparts]
    simp [caseParts, partsOf]
  | .arm condition result rest, ⟨hcondition, hresult, hrest⟩ => by
    rw [flatArms, caseParts_mark (show caseMark? (.keyword .WHEN) = some .whenPart from rfl),
      hcondition.caseParts_append,
      caseParts_mark (show caseMark? (.keyword .THEN) = some .thenPart from rfl),
      hresult.caseParts_append, caseParts_flatArms hrest]
    simp [partsOf]

theorem closes_flatArms : ∀ {arms : TokenArms},
    ArmsAll (fun xs => Closes false 0 (flatAll xs)) (fun xs => Closes false 0 (flatAll xs)) arms →
    Closes true 0 (flatArms arms)
  | .done, _ => .nil
  | .otherwise _, hbody => .other rfl rfl (fun _ => nofun) (Closes.allow hbody)
  | .arm .., ⟨hcondition, hresult, hrest⟩ =>
    .other rfl rfl (fun _ => nofun) <| hcondition.allow.append <| .other rfl rfl (fun _ => nofun) <|
      hresult.allow.append (closes_flatArms hrest)

theorem ArmsAll.forall_mem : ∀ {arms : TokenArms}, ArmsAll P P arms → ∀ part ∈ armParts arms, P part
  | .done, _ => forall_mem_nil _
  | .otherwise _, hbody => forall_mem_cons.mpr ⟨hbody, forall_mem_nil _⟩
  | .arm .., ⟨hcondition, hresult, hrest⟩ =>
    forall_mem_cons.mpr ⟨hcondition, forall_mem_cons.mpr ⟨hresult, hrest.forall_mem⟩⟩

/-! ### What stands side by side -/

/-- Each token may stand behind the one before it; the first one stands behind `previous`. -/
def Chain (R : Option Token → Token → Prop) : Option Token → List Token → Prop
  | _, [] => True
  | previous, t :: rest => R previous t ∧ Chain R (some t) rest

/-- A relation of neighbours that does not matter to keywords and names, for which a keyword is like the
start of a level, and which does not tell `!=` from `<>`. -/
structure Adjacency (R : Option Token → Token → Prop) : Prop where
  keyword (previous : Option Token) (k : Keyword) : R previous (.keyword k)
  name (previous : Option Token) (label : String) : R previous (.name none label)
  behind_keyword {k : Keyword} {t : Token} : R (some (.keyword k)) t ↔ R none t
  respelled {previous previous' : Option Token} {t t' : Token}
    (before : previous.map canon = previous'.map canon) (same : canon t = canon t')
    (stands : R previous t) : R previous' t'

section

variable {R : Option Token → Token → Prop} {previous : Option Token}
variable {ys : List Token}

theorem chain_append :
    Chain R previous (xs ++ ys) ↔ Chain R previous xs ∧ Chain R (xs.getLast?.or previous) ys := by
  induction xs generalizing previous with
  | nil => simp [Chain]
  | cons t rest ih =>
    rw [cons_append, Chain, Chain, ih, and_assoc, getLast?_cons]
    cases rest.getLast? <;> rfl

theorem chain_forall {P : Token → Prop} : Chain (fun _ t => P t) previous xs ↔ ∀ t ∈ xs, P t := by
  induction xs generalizing previous with
  | nil => simp [Chain]
  | cons t rest ih => simp [Chain, ih]

theorem adjacency_forall {P : Token → Prop} (hkeyword : ∀ k, P (.keyword k))
    (hname : ∀ label, P (.name none label)) (hop : ∀ op, op = "!=" ∨ op = "<>" → P (.operator op)) :
    Adjacency fun _ t => P t where
  keyword _ := hkeyword
  name _ := hname
  behind_keyword := .rfl
  respelled _ same stands := by
    rcases eq_or_of_canon same with rfl | ⟨-, op, -, hop', -, rfl⟩
    · exact stands
    · exact hop op hop'

variable (hR : Adjacency R)
include hR

theorem Adjacency.chain_behind : Chain R (some (.keyword k)) xs ↔ Chain R none xs := by
  cases xs with
  | nil => exact .rfl
  | cons t rest => exact and_congr hR.behind_keyword .rfl

theorem Adjacency.chain_keyword : Chain R previous (.keyword k :: xs) ↔ Chain R none xs := by
  rw [Chain, hR.chain_behind]
  exact and_iff_right (hR.keyword previous k)

theorem Adjacency.chain_append_keyword :
    Chain R previous (xs ++ .keyword k :: ys) ↔ Chain R previous xs ∧ Chain R none ys := by
  rw [chain_append, hR.chain_keyword]

theorem Adjacency.chain_caseParts {n : Nat} (h : Chain R previous xs) :
    Chain R previous (caseParts n xs).1 ∧ ∀ part ∈ (caseParts n xs).2, Chain R none part.2 := by
  induction xs generalizing n previous with
  | nil => exact ⟨trivial, nofun⟩
  | cons t rest ih =>
    obtain ⟨ht, hrest⟩ := h
    rw [caseParts]
    simp only
    split
    · rename_i mark hmark
      obtain ⟨k, rfl⟩ : ∃ k, t = .keyword k := by
        split at hmark
        · unfold caseMark? at hmark
          split at hmark <;> first | exact ⟨_, rfl⟩ | cases hmark
        · cases hmark
      obtain ⟨hlead, hparts⟩ := ih (hR.chain_behind.mp hrest)
      exact ⟨trivial, forall_mem_cons.mpr ⟨hlead, hparts⟩⟩
    · obtain ⟨hlead, hparts⟩ := ih hrest
      exact ⟨⟨ht, hlead⟩, hparts⟩

theorem Adjacency.chain_flatArms : ∀ {arms : TokenArms},
    ArmsAll (fun xs => Chain R none (flatAll xs)) (fun xs => Chain R none (flatAll xs)) arms →
    Chain R none ys → ∀ {previous : Option Token} {k : Keyword},
    Chain R previous (flatArms arms ++ .keyword k :: ys)
  | .done, _, hys, _, _ => hR.chain_keyword.mpr hys
  | .otherwise _, hbody, hys, _, _ =>
    hR.chain_keyword.mpr (hR.chain_append_keyword.mpr ⟨hbody, hys⟩)
  | .arm .., ⟨hcondition, hresult, hrest⟩, hys, _, _ => by
    rw [flatArms, cons_append, append_assoc, cons_append, append_assoc]
    refine hR.chain_keyword.mpr (hR.chain_append_keyword.mpr ⟨hcondition, ?_⟩)
    exact chain_append.mpr ⟨hresult, Adjacency.chain_flatArms hrest hys⟩

theorem Adjacency.chain_respelled {previous' : Option Token}
    (hprevious : previous.map canon = previous'.map canon) (hcanon : xs.map canon = ys.map canon)
    (h : Chain R previous xs) : Chain R previous' ys := by
  induction xs generalizing ys previous previous' with
  | nil =>
    rw [map_eq_nil_iff.mp hcanon.symm]
    trivial
  | cons t rest ih =>
    cases ys with
    | nil => cases hcanon
    | cons t' rest' =>
      obtain ⟨ht, hrest⟩ := cons.inj hcanon
      have hsome : (some t).map canon = (some t').map canon := congrArg some ht
      exact ⟨hR.respelled hprevious ht h.1, ih hsome hrest h.2⟩

theorem Adjacency.chain_labelled {free : Bool} (hlabelled : Labelled free tokens tokens')
    (h : Chain R previous (flatAll tokens)) : Chain R previous (flatAll tokens') := by
  induction hlabelled generalizing previous with
  | nil => exact h
  | cons more ih =>
    rw [flatAll, chain_append] at h ⊢
    exact ⟨h.1, ih h.2⟩
  | label more ih => exact ⟨hR.keyword _ _, hR.name _ _, ih h.2⟩

end

theorem flatAll_canon (h : tokens.map canon = tokens'.map canon) :
    (flatAll tokens).map canon = (flatAll tokens').map canon := by
  induction tokens generalizing tokens' with
  | nil => rw [map_eq_nil_iff.mp h.symm]
  | cons t rest ih =>
    cases tokens' with
    | nil => cases h
    | cons t' rest' =>
      obtain ⟨ht, hrest⟩ := cons.inj h
      have hflat : (flat t).map canon = (flat t').map canon := by
        rcases eq_or_of_canon ht with rfl | ⟨op, op', -, -, rfl, rfl⟩
        · rfl
        · exact congrArg ([·]) ht
      rw [flatAll, flatAll, map_append, map_append, hflat, ih hrest]

theorem Adjacency.chain_rewritten {R : Option Token → Token → Prop} (hR : Adjacency R)
    (hrewritten : Rewritten tokens tokens') (h : Chain R none (flatAll tokens)) :
    Chain R none (flatAll tokens') := by
  obtain ⟨respelled, hcanon, hlabelled⟩ := hrewritten
  exact hR.chain_labelled hlabelled (hR.chain_respelled rfl (flatAll_canon hcanon.symm) h)

/-! ### Folding CASE expressions again -/

/-- Whether the token has operands where it needs them. -/
def isShaped : Token → Bool
  | .comparison left _ right => left.isOperand && right.isOperand
  | .operation left _ right => left.isOperand && right.isOperand
  | .aliased t _ => t.isAliasable
  | _ => true

/-- The token stands alone on its level, or has been folded of such tokens. -/
inductive Formed : Token → Prop
  | alone {t : Token} (flat_eq : flat t = [t]) : Formed t
  | folded {t : Token} (shaped : isShaped t = true)
    (inner : ∀ part ∈ parts t, ∀ u ∈ part, Formed u) : Formed t

theorem formed_foldLevel (h : ∀ t ∈ tokens, Formed t) : ∀ t ∈ foldLevel tokens, Formed t := by
  refine forall_foldLevel (fun hleft hright hl hr => .folded ?_ ?_)
    (fun hleft hright hl hr => .folded ?_ ?_) (fun htarget ht => .folded htarget ?_) h
  · simp [isShaped, hleft, hright]
  · simp [parts, hl, hr]
  · simp [isShaped, hleft, hright]
  · simp [parts, hl, hr]
  · simp [parts, ht]

/-- The token is folded from what it is written out as: it stands alone, or is a CASE expression. -/
inductive Refolds : Token → Prop
  | alone {t : Token} (flat_eq : flat t = [t]) (not_case : t.isKeyword .CASE = false) : Refolds t
  | caseOf {operand : List Token} {arms : TokenArms}
    (closes : Closes true 0 (flatAll operand ++ flatArms arms))
    (reads : readCase finish (flatAll operand ++ flatArms arms) = .ok (.caseOf operand arms)) :
    Refolds (.caseOf operand arms)

theorem Refolds.spread_eq (h : Refolds t) : spread t = [t] := by
  cases h with
  | alone hflat => exact spread_of_flat hflat
  | caseOf => rfl

theorem foldCases_flatAll (h : ∀ t ∈ tokens, Refolds t) {n : Nat} (hn : (flatAll tokens).length ≤ n)
    : foldCases finish n (flatAll tokens) = .ok tokens := by
  induction tokens generalizing n with
  | nil => cases n <;> rfl
  | cons t rest ih =>
    obtain ⟨ht, hrest⟩ := forall_mem_cons.mp h
    rw [flatAll] at hn ⊢
    cases ht with
    | alone hflat hcase =>
      rw [hflat, singleton_append] at hn ⊢
      obtain ⟨n, rfl⟩ := Nat.exists_eq_add_of_lt hn
      rw [foldCases, if_neg (by simp [hcase]), ih hrest (by omega)]
      rfl
    | @caseOf operand arms hbody hread =>
      have hflat : flat (.caseOf operand arms) ++ flatAll rest =
          .keyword .CASE :: (flatAll operand ++ flatArms arms ++ .keyword .END :: flatAll rest) := by
        simp [flat]
      rw [hflat] at hn ⊢
      generalize flatAll operand ++ flatArms arms = body at hbody hread hn ⊢
      obtain ⟨n, rfl⟩ := Nat.exists_eq_add_of_lt hn
      have hlength : (flatAll rest).length ≤
          (body ++ .keyword .END :: flatAll rest).length + n := by
        rw [length_append, length_cons]
        omega
      rw [foldCases, if_pos (by rfl), hbody.splitCase_eq]
      simp only [hread, ih hrest hlength]
      rfl

/-- What is known of a level that tokens have been finished to. -/
structure Finished (tokens finished : List Token) : Prop where
  again : finish (flatAll finished) = .ok finished
  closes : Closes false 0 tokens → Closes false 0 (flatAll finished)
  chain : ∀ R, Adjacency R → Chain R none tokens → Chain R none (flatAll finished)
  ne_nil : tokens ≠ [] → finished ≠ []
  formed : ∀ t ∈ finished, Formed t

/-- What is known of a level whose CASE expressions have been folded. -/
structure Folded (tokens folded : List Token) : Prop where
  refolds : ∀ t ∈ folded, Refolds t
  closes : Closes false 0 tokens → ∀ t ∈ folded, Closes false 0 (flat t)
  chain : ∀ R, Adjacency R → ∀ previous, Chain R previous tokens → Chain R previous (flatAll folded)
  ne_nil : tokens ≠ [] → folded ≠ []
  formed : ∀ t ∈ folded, Formed t

theorem Folded.nil : Folded [] [] :=
  ⟨forall_mem_nil _, fun _ => forall_mem_nil _, fun _ _ _ h => h, id, forall_mem_nil _⟩

theorem closes_flatAll (h : ∀ t ∈ tokens, Closes false 0 (flat t)) :
    Closes false 0 (flatAll tokens) := by
  induction tokens with
  | nil => exact .nil
  | cons t rest ih =>
    obtain ⟨ht, hrest⟩ := forall_mem_cons.mp h
    exact ht.append (ih hrest)

theorem Folded.finished {folded : List Token} (h : Folded tokens folded) :
    Finished tokens (foldLevel folded) := by
  obtain ⟨hlevel, hrewritten⟩ := foldLevel_spread fun t ht => (h.refolds t ht).spread_eq
  have hflat := flatAll_flatMap_spread (foldLevel folded)
  have hop (op : String) : Refolds (.operator op) := .alone rfl rfl
  have hrefolds := hrewritten.forall_mem hop (.alone rfl rfl) h.refolds
  refine ⟨?_, fun hcloses => ?_, fun R hR hchain => ?_, fun hne hnil => ?_, formed_foldLevel h.formed⟩
  · rw [finish_eq, ← hflat, foldCases_flatAll hrefolds (Nat.le_refl _), ok_bind, hlevel]
    rfl
  · have hop (op : String) : Closes false 0 (flat (.operator op)) :=
      .other rfl rfl (fun _ _ => rfl) .nil
    rw [← hflat]
    exact closes_flatAll (hrewritten.forall_mem hop (.other rfl rfl (fun _ _ => rfl) .nil)
      (h.closes hcloses))
  · rw [← hflat]
    exact hR.chain_rewritten hrewritten (h.chain R hR none hchain)
  · rw [hnil] at hrewritten
    obtain ⟨respelled, hcanon, hlabelled⟩ := hrewritten
    cases hlabelled
    exact h.ne_nil hne (map_eq_nil_iff.mp hcanon.symm)

theorem readCase_flatAll {operand : List Token} {arms : TokenArms}
    (hoperand : finish (flatAll operand) = .ok operand ∧ Closes false 0 (flatAll operand))
    (harms : ArmsAll (fun xs => finish (flatAll xs) = .ok xs ∧ Closes false 0 (flatAll xs))
      (fun xs => (finish (flatAll xs) = .ok xs ∧ Closes false 0 (flatAll xs)) ∧ xs ≠ []) arms)
    (hsome : hasArm arms = true) :
    readCase finish (flatAll operand ++ flatArms arms) = .ok (.caseOf operand arms) := by
  have hparts : caseParts 0 (flatAll operand ++ flatArms arms) = (flatAll operand, partsOf arms) := by
    rw [hoperand.2.caseParts_append, caseParts_flatArms]
    · simp
    · exact harms.imp (fun _ h => h.2) fun _ h => h.1.2
  have hread : readArms finish (partsOf arms) [] none = .ok arms := by
    rw [readArms_partsOf _ (.inl hsome)]
    · rfl
    · exact harms.imp (fun _ h => h.1) fun _ h => ⟨h.1.1, h.2⟩
  have hlead : (if (flatAll operand).isEmpty then pure [] else finish (flatAll operand)) =
      .ok operand := by
    split
    · rename_i hempty
      rw [flatAll_eq_nil.mp (isEmpty_iff.mp hempty)]
      rfl
    · exact hoperand.1
  unfold readCase
  rw [hparts]
  refine ite_bind_eq_ok.mpr ⟨operand, hlead, ?_⟩
  rw [hread]
  rfl

/-- The tokens before the first mark of a CASE expression, and those behind each mark. -/
def caseSections (body : List Token) : List (List Token) :=
  (caseParts 0 body).1 :: (caseParts 0 body).2.map Prod.snd

theorem length_caseSections (h : xs ∈ caseSections body) : xs.length ≤ body.length := by
  obtain ⟨hlead, hparts⟩ := length_caseParts 0 body
  rcases mem_cons.mp h with rfl | h
  · exact hlead
  · obtain ⟨part, hpart, rfl⟩ := mem_map.mp h
    exact hparts part hpart

theorem Closes.caseSections (h : Closes true 0 body) (hxs : xs ∈ caseSections body) :
    Closes false 0 xs := by
  obtain ⟨hlead, hparts⟩ := h.of_caseParts
  rcases mem_cons.mp hxs with rfl | hxs
  · exact hlead
  · obtain ⟨part, hpart, rfl⟩ := mem_map.mp hxs
    exact hparts part hpart

theorem Adjacency.chain_caseSections {R : Option Token → Token → Prop} (hR : Adjacency R)
    {body xs : List Token} (h : Chain R none body) (hxs : xs ∈ caseSections body) :
    Chain R none xs := by
  obtain ⟨hlead, hparts⟩ := hR.chain_caseParts h
  rcases mem_cons.mp hxs with rfl | hxs
  · exact hlead
  · obtain ⟨part, hpart, rfl⟩ := mem_map.mp hxs
    exact hparts part hpart

/-- A CASE expression that was read is read again from what it is written out as. -/
theorem refolds_of_readCase (hbody : Closes true 0 body)
    (hfinish : ∀ xs ys, xs.length ≤ body.length → (∀ t ∈ xs, flat t = [t]) → finish xs = .ok ys →
      Finished xs ys) (hflat : ∀ t ∈ body, flat t = [t]) (h : readCase finish body = .ok t) :
    Refolds t ∧ Closes false 0 (flat t) ∧ Formed t ∧ ∀ R, Adjacency R → Chain R none body →
      ∀ previous ys, Chain R none ys → Chain R previous (flat t ++ ys) := by
  obtain ⟨operand, hoperand, h⟩ := ite_bind_eq_ok.mp h
  obtain ⟨arms, harms, rfl⟩ := bind₁_eq_ok.mp h
  have hraw : Adjacency fun _ t => flat t = [t] :=
    adjacency_forall (fun _ => rfl) (fun _ => rfl) fun _ _ => rfl
  have hfinished {xs ys : List Token} (hxs : xs ∈ caseSections body) (h : finish xs = .ok ys) :
      Finished xs ys := by
    have hchain : Chain (fun _ t => flat t = [t]) none body := chain_forall.mpr hflat
    exact hfinish xs ys (length_caseSections hxs) (chain_forall.mp (hraw.chain_caseSections hchain hxs)) h
  let P (xs : List Token) : Prop := (finish (flatAll xs) = .ok xs ∧ Closes false 0 (flatAll xs)) ∧
    (∀ t ∈ xs, Formed t) ∧ ∀ R, Adjacency R → Chain R none body → Chain R none (flatAll xs)
  have hP {xs ys : List Token} (hxs : xs ∈ caseSections body) (h : finish xs = .ok ys) : P ys := by
    have hys := hfinished hxs h
    exact ⟨⟨hys.again, hys.closes (hbody.caseSections hxs)⟩, hys.formed, fun R hR hchain =>
      hys.chain R hR (hR.chain_caseSections hchain hxs)⟩
  have hoperand : P operand := by
    split at hoperand
    · cases hoperand
      exact ⟨⟨rfl, .nil⟩, forall_mem_nil _, fun _ _ _ => trivial⟩
    · exact hP mem_cons_self hoperand
  have hmem {part : CaseMark × List Token} (hpart : part ∈ (caseParts 0 body).2) :
      part.2 ∈ caseSections body := mem_cons_of_mem _ (mem_map_of_mem hpart)
  obtain ⟨harms, hsome⟩ := armsAll_of_readArms (P := P) (Q := fun xs => P xs ∧ xs ≠ [])
    (fun part hpart xs h => hP (hmem hpart) h)
    (fun part hpart hne xs h => ⟨hP (hmem hpart) h, (hfinished (hmem hpart) h).ne_nil hne⟩)
    (forall_mem_nil _) (fun _ h => by cases h) harms
  have hcloses : Closes true 0 (flatAll operand ++ flatArms arms) :=
    hoperand.1.2.allow.append (closes_flatArms (harms.imp (fun _ h => h.1.2) fun _ h => h.1.1.2))
  refine ⟨.caseOf hcloses ?_, .enter (hcloses.append_end .nil), .folded rfl ?_,
    fun R hR hchain previous ys hys => ?_⟩
  · exact readCase_flatAll hoperand.1 (harms.imp (fun _ h => h.1) fun _ h => ⟨h.1.1, h.2⟩) hsome
  · exact forall_mem_cons.mpr
      ⟨hoperand.2.1, (harms.imp (fun _ h => h.2.1) fun _ h => h.1.2.1).forall_mem⟩
  · rw [flat, cons_append, append_assoc, append_assoc, singleton_append]
    refine hR.chain_keyword.mpr (chain_append.mpr ⟨hoperand.2.2 R hR hchain, ?_⟩)
    exact hR.chain_flatArms (harms.imp (fun _ h => h.2.2 R hR hchain) fun _ h => h.1.2.2 R hR hchain) hys

/-- Folding CASE expressions gives what they are written out as again. -/
theorem folded_of_foldCases {n : Nat} {folded : List Token}
    (hfinish : ∀ xs ys, xs.length < tokens.length → (∀ t ∈ xs, flat t = [t]) → finish xs = .ok ys →
      Finished xs ys) (hn : tokens.length ≤ n) (hflat : ∀ t ∈ tokens, flat t = [t])
    (h : foldCases finish n tokens = .ok folded) : Folded tokens folded := by
  induction n generalizing tokens folded with
  | zero =>
    obtain rfl := length_eq_zero_iff.mp (Nat.le_zero.mp hn)
    cases h
    exact .nil
  | succ n ih =>
    cases tokens with
    | nil =>
      cases h
      exact .nil
    | cons t rest =>
      obtain ⟨ht, hrest⟩ := forall_mem_cons.mp hflat
      rw [length_cons] at hfinish hn
      rw [foldCases] at h
      split at h
      · rename_i hcase
        obtain rfl := isKeyword_iff.mp hcase
        split at h
        · cases h
        · rename_i body after hsplit
          obtain ⟨token, htoken, after', hafter, rfl⟩ := bind₂_eq_ok.mp h
          obtain ⟨hbody, rfl⟩ := Closes.of_splitCase hsplit
          obtain ⟨hbodyFlat, hafterFlat⟩ := forall_mem_append.mp hrest
          rw [length_append, length_cons] at hfinish hn
          obtain ⟨hrefolds, hcloses, hformed, hchain⟩ := refolds_of_readCase hbody
            (fun xs ys hxs => hfinish xs ys (by omega)) hbodyFlat htoken
          have hmore := ih (fun xs ys hxs => hfinish xs ys (by omega)) (by omega)
            (forall_mem_cons.mp hafterFlat).2 hafter
          refine ⟨forall_mem_cons.mpr ⟨hrefolds, hmore.refolds⟩, fun h => ?_,
            fun R hR previous h => ?_, fun _ => cons_ne_nil _ _,
            forall_mem_cons.mpr ⟨hformed, hmore.formed⟩⟩
          · cases h with
            | enter more =>
              exact forall_mem_cons.mpr ⟨hcloses, hmore.closes (hbody.of_append_end more)⟩
            | other _ hcase => cases hcase
          · obtain ⟨hbodyChain, hafterChain⟩ := hR.chain_append_keyword.mp (hR.chain_keyword.mp h)
            exact hchain R hR hbodyChain previous _ (hmore.chain R hR none hafterChain)
      · rename_i hcase
        obtain ⟨rest', hrest', rfl⟩ := bind₁_eq_ok.mp h
        rw [Bool.not_eq_true] at hcase
        have hmore := ih (fun xs ys hxs => hfinish xs ys (by omega)) (by omega) hrest hrest'
        refine ⟨forall_mem_cons.mpr ⟨.alone ht hcase, hmore.refolds⟩, fun h => ?_,
          fun R hR previous h => ?_, fun _ => cons_ne_nil _ _,
          forall_mem_cons.mpr ⟨.alone ht, hmore.formed⟩⟩
        · cases h with
          | enter => cases hcase
          | other hend _ hmark more =>
            refine forall_mem_cons.mpr ⟨?_, hmore.closes more⟩
            rw [ht]
            exact .other hend hcase hmark .nil
        · rw [flatAll, ht]
          exact ⟨h.1, hmore.chain R hR _ h.2⟩

/-- A finished level finishes again from what it is written out as, which keeps what the tokens were. -/
theorem finished_of_finish {finished : List Token} (hflat : ∀ t ∈ tokens, flat t = [t])
    (h : finish tokens = .ok finished) : Finished tokens finished := by
  induction hn : tokens.length using Nat.strongRecOn generalizing tokens finished with
  | ind n ih =>
    subst hn
    rw [finish_eq] at h
    obtain ⟨folded, hfolded, rfl⟩ := bind₁_eq_ok.mp h
    refine (folded_of_foldCases ?_ (Nat.le_refl _) hflat hfolded).finished
    exact fun xs ys hlength hxs hfinish => ih _ hlength hxs hfinish rfl

end Token

end DocSql
