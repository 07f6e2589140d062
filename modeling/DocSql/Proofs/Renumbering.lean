import DocSql.Proofs.Lexing
import DocSql.Proofs.Steps
import DocSql.Statement

/-! # Other indices for placeholders

The indices of placeholders do not matter to how lexemes are put together: whatever a function makes of
the indices, the tokens of the renumbered lexemes are the renumbered tokens (`group_renumber`).
-/
namespace DocSql
open List

/-- The lexeme with another index, if it is a placeholder. -/
def LexemeKind.renumber (f : Nat → Nat) : LexemeKind → LexemeKind
  | .placeholder index => .placeholder (f index)
  | kind => kind

/-- The lexeme with another index, if it is a placeholder. -/
def Lexeme.renumber (f : Nat → Nat) (l : Lexeme) : Lexeme := { l with kind := l.kind.renumber f }

namespace Token

mutual

/-- The token with other indices for the placeholders in it. -/
def renumber (f : Nat → Nat) : Token → Token
  | .placeholder index => .placeholder (f index)
  | .paren inner => .paren (renumberAll f inner)
  | .call fn args => .call fn (renumberArgs f args)
  | .comparison left op right => .comparison (renumber f left) op (renumber f right)
  | .operation left op right => .operation (renumber f left) op (renumber f right)
  | .caseOf operand arms => .caseOf (renumberAll f operand) (renumberArms f arms)
  | .aliased token label => .aliased (renumber f token) label
  | t => t

/-- The tokens with other indices. -/
def renumberAll (f : Nat → Nat) : List Token → List Token
  | [] => []
  | t :: rest => renumber f t :: renumberAll f rest

/-- The arguments of a call with other indices. -/
def renumberArgs (f : Nat → Nat) : List (List Token) → List (List Token)
  | [] => []
  | arg :: rest => renumberAll f arg :: renumberArgs f rest

/-- The branches of a CASE expression with other indices. -/
def renumberArms (f : Nat → Nat) : TokenArms → TokenArms
  | .done => .done
  | .otherwise body => .otherwise (renumberAll f body)
  | .arm condition result rest =>
    .arm (renumberAll f condition) (renumberAll f result) (renumberArms f rest)

end

section

variable (f : Nat → Nat)
variable {select : String → Option (Token → Token → Token)}

theorem renumberAll_eq_map (tokens : List Token) : renumberAll f tokens = tokens.map (renumber f) := by
  induction tokens with
  | nil => rfl
  | cons t rest ih => rw [renumberAll, ih, map_cons]

theorem renumberArgs_eq_map (args : List (List Token)) :
    renumberArgs f args = args.map (map (renumber f)) := by
  induction args with
  | nil => rfl
  | cons arg rest ih => rw [renumberArgs, ih, renumberAll_eq_map, map_cons]

/-! ### What does not depend on the indices -/

@[simp] theorem isOperand_renumber (t : Token) : (t.renumber f).isOperand = t.isOperand := by
  cases t <;> rfl

@[simp] theorem isAliasable_renumber (t : Token) : (t.renumber f).isAliasable = t.isAliasable := by
  cases t <;> rfl

@[simp] theorem isKeyword_renumber (k : Keyword) (t : Token) :
    (t.renumber f).isKeyword k = t.isKeyword k := by
  cases t <;> rfl

@[simp] theorem isPunctuation_renumber (c : Char) (t : Token) :
    (t.renumber f).isPunctuation c = t.isPunctuation c := by
  cases t <;> rfl

@[simp] theorem caseMark?_renumber (t : Token) : caseMark? (t.renumber f) = caseMark? t := by
  cases t <;> rfl

/-! ### Folding a level -/

/-- What `select` builds of operands has their indices. -/
def Renumbers (select : String → Option (Token → Token → Token)) : Prop :=
  ∀ op build, select op = some build → ∀ left right,
    (build left right).renumber f = build (left.renumber f) (right.renumber f)

theorem renumbers_arithmeticOf (multiplicative : Bool) :
    Renumbers f (arithmeticOf multiplicative) := by
  intro op build hbuild left right
  unfold arithmeticOf at hbuild
  split at hbuild
  · split at hbuild
    · cases hbuild
      rfl
    · cases hbuild
  · cases hbuild

theorem renumbers_comparisonOf : Renumbers f comparisonOf := by
  intro op build hbuild left right
  obtain ⟨c, -, rfl⟩ := Option.map_eq_some_iff.mp hbuild
  rfl

variable {f}

theorem joinOver?_renumber (hselect : Renumbers f select) (out : List Token) (t right : Token) :
    joinOver? select (out.map (renumber f)) (t.renumber f) (right.renumber f) =
      (joinOver? select out t right).map (map (renumber f)) := by
  cases t with
  | operator op =>
    cases out with
    | nil => rfl
    | cons left out =>
      simp only [joinOver?, map_cons, renumber, isOperand_renumber]
      cases hop : select op with
      | none => rfl
      | some build =>
        simp only
        split
        · simp [hselect op build hop]
        · rfl
  | _ => rfl

theorem foldBinary_renumber (hselect : Renumbers f select) (out tokens : List Token) :
    foldBinary select (out.map (renumber f)) (tokens.map (renumber f)) =
      (foldBinary select out tokens).map (renumber f) := by
  fun_induction foldBinary select out tokens with
  | case1 out => simp [foldBinary]
  | case2 out t => simp [foldBinary]
  | case3 out t right rest out' hjoin ih | case4 out t right rest hjoin ih =>
    rw [map_cons, map_cons, foldBinary, joinOver?_renumber hselect, hjoin]
    exact ih

theorem aliasAfterAs?_renumber (out : List Token) (t next : Token) :
    aliasAfterAs? (out.map (renumber f)) (t.renumber f) (next.renumber f) =
      (aliasAfterAs? out t next).map (map (renumber f)) := by
  cases t with
  | keyword k =>
    cases next with
    | name qualifier label =>
      cases out with
      | nil => cases k <;> cases qualifier <;> rfl
      | cons target out =>
        cases k <;> cases qualifier <;> try rfl
        simp only [aliasAfterAs?, map_cons, renumber, isAliasable_renumber]
        split
        · simp [renumber]
        · rfl
    | _ => cases k <;> cases out <;> rfl
  | _ => rfl

theorem pushAlias_renumber (out : List Token) (t : Token) :
    pushAlias (out.map (renumber f)) (t.renumber f) = (pushAlias out t).map (renumber f) := by
  cases t with
  | name qualifier label =>
    cases out with
    | nil => cases qualifier <;> rfl
    | cons target out =>
      cases qualifier with
      | some table => rfl
      | none =>
        simp only [pushAlias, map_cons, renumber, isAliasable_renumber]
        split
        · simp [renumber]
        · simp [renumber]
  | _ => cases out <;> rfl

theorem foldAliases_renumber (out tokens : List Token) :
    foldAliases (out.map (renumber f)) (tokens.map (renumber f)) =
      (foldAliases out tokens).map (renumber f) := by
  fun_induction foldAliases out tokens with
  | case1 out => simp [foldAliases]
  | case2 out t => simp [foldAliases, pushAlias_renumber]
  | case3 out t next rest out' halias ih =>
    rw [map_cons, map_cons, foldAliases, aliasAfterAs?_renumber, halias]
    exact ih
  | case4 out t next rest halias ih =>
    rw [map_cons, map_cons, foldAliases, aliasAfterAs?_renumber, halias,
      Option.map_none, pushAlias_renumber]
    exact ih

theorem foldLevel_renumber (tokens : List Token) :
    foldLevel (tokens.map (renumber f)) = (foldLevel tokens).map (renumber f) := by
  have htimes := foldBinary_renumber (renumbers_arithmeticOf f true) []
  have hplus := foldBinary_renumber (renumbers_arithmeticOf f false) []
  have hcompare := foldBinary_renumber (renumbers_comparisonOf f) []
  have halias := foldAliases_renumber (f := f) []
  rw [map_nil] at htimes hplus hcompare halias
  simp only [foldLevel, htimes, hplus, hcompare, halias]

/-! ### CASE expressions -/

theorem splitCase_renumber (open_ : Nat) (tokens : List Token) :
    splitCase open_ (tokens.map (renumber f)) =
      (splitCase open_ tokens).map (Prod.map (map (renumber f)) (map (renumber f))) := by
  induction tokens generalizing open_ with
  | nil => rfl
  | cons t rest ih =>
    have hmore (n : Nat) : (splitCase n (rest.map (renumber f))).map
        (fun parts => (t.renumber f :: parts.1, parts.2)) =
        ((splitCase n rest).map fun parts => (t :: parts.1, parts.2)).map
          (Prod.map (map (renumber f)) (map (renumber f))) := by
      rw [ih]
      cases splitCase n rest <;> rfl
    rw [map_cons, splitCase.eq_def, splitCase.eq_def open_ (t :: rest)]
    simp only [isKeyword_renumber]
    split
    · cases open_ with
      | zero => rfl
      | succ n => exact hmore n
    · split <;> exact hmore _

/-- The parts of a CASE expression with other indices. -/
def renumberParts (f : Nat → Nat) (parts : List (CaseMark × List Token)) :
    List (CaseMark × List Token) :=
  parts.map (Prod.map id (map (renumber f)))

theorem caseParts_renumber (open_ : Nat) (tokens : List Token) :
    caseParts open_ (tokens.map (renumber f)) =
      ((caseParts open_ tokens).1.map (renumber f), renumberParts f (caseParts open_ tokens).2) := by
  induction tokens generalizing open_ with
  | nil => rfl
  | cons t rest ih =>
    rw [map_cons, caseParts, caseParts]
    simp only [isKeyword_renumber, caseMark?_renumber, ih]
    split <;> rfl

theorem armsOf_renumber (branches : List (List Token × List Token)) (otherwise : Option (List Token)) :
    renumberArms f (armsOf branches otherwise) =
      armsOf (branches.map (Prod.map (map (renumber f)) (map (renumber f))))
        (otherwise.map (map (renumber f))) := by
  induction branches with
  | nil => cases otherwise <;> simp [armsOf, renumberArms, renumberAll_eq_map]
  | cons branch rest ih =>
    simp only [armsOf, map_cons, foldr_cons, renumberArms, renumberAll_eq_map] at ih ⊢
    rw [ih]
    rfl

/-- Finishing a level keeps the indices apart from the rest. -/
def FinishRenumbers (f : Nat → Nat) (finish : List Token → Except ParseError (List Token)) : Prop :=
  ∀ tokens, finish (tokens.map (renumber f)) = map (renumber f) <$> finish tokens

section

variable {finish : List Token → Except ParseError (List Token)} (hfinish : FinishRenumbers f finish)

include hfinish

theorem readArms_renumber (parts : List (CaseMark × List Token))
    (branches : List (List Token × List Token)) (otherwise : Option (List Token)) :
    readArms finish (renumberParts f parts)
        (branches.map (Prod.map (map (renumber f)) (map (renumber f))))
        (otherwise.map (map (renumber f))) =
      renumberArms f <$> readArms finish parts branches otherwise := by
  fun_induction readArms finish parts branches otherwise with
  | case1 branches otherwise hempty =>
    simp [renumberParts, readArms, hempty]
  | case2 branches otherwise hempty =>
    simp [renumberParts, readArms, hempty, armsOf_renumber, map_reverse]
  | case3 condition t result rest branches otherwise ih =>
    have hresult := hfinish (t :: result)
    rw [map_cons] at hresult
    simp only [renumberParts, map_cons, Prod.map_apply, id_eq, readArms, hfinish condition,
      hresult, bind_map_left, map_bind]
    refine bind_congr fun condition => bind_congr fun result => ?_
    exact ih condition result
  | case4 condition rest branches otherwise hthen =>
    simp only [renumberParts, map_cons, Prod.map_apply, id_eq]
    rw [readArms]
    · rfl
    · intro t result more heq
      obtain ⟨⟨mark, tokens⟩, rest', rfl, hpart, -⟩ := map_eq_cons_iff.mp heq
      obtain ⟨rfl, htokens⟩ := Prod.mk.inj hpart
      obtain ⟨t', result', rfl, -⟩ := map_eq_cons_iff.mp htokens
      exact hthen _ _ _ rfl
  | case5 body rest branches ih =>
    simp only [renumberParts, map_cons, Prod.map_apply, id_eq, Option.map_none, readArms,
      hfinish body, bind_map_left, map_bind]
    exact bind_congr fun body => ih body
  | case6 parts branches otherwise hnil hthen hwhen helse =>
    rcases parts with _ | ⟨⟨mark, body⟩, rest⟩
    · exact (hnil rfl).elim
    cases mark with
    | whenPart => exact (hwhen _ _ rfl).elim
    | thenPart => rfl
    | elsePart =>
      cases otherwise with
      | none => exact (helse _ _ rfl rfl).elim
      | some body' => rfl

theorem readCase_renumber (body : List Token) :
    readCase finish (body.map (renumber f)) = renumber f <$> readCase finish body := by
  have harms := readArms_renumber hfinish (caseParts 0 body).2 [] none
  rw [map_nil, Option.map_none] at harms
  simp only [readCase, caseParts_renumber, harms, isEmpty_map]
  split
  · simp [renumber, renumberAll_eq_map]
  · simp [renumber, renumberAll_eq_map, hfinish _]

theorem foldCases_renumber (fuel : Nat) (tokens : List Token) :
    foldCases finish fuel (tokens.map (renumber f)) =
      map (renumber f) <$> foldCases finish fuel tokens := by
  induction fuel generalizing tokens with
  | zero => rfl
  | succ fuel ih =>
    cases tokens with
    | nil => rfl
    | cons t rest =>
      simp only [map_cons, foldCases, isKeyword_renumber, splitCase_renumber]
      split
      · cases splitCase 0 rest with
        | none => rfl
        | some parts =>
          obtain ⟨body, after⟩ := parts
          simp [readCase_renumber hfinish, ih]
      · simp [ih]

end

theorem finishRenumbers_finishWithin (fuel : Nat) : FinishRenumbers f (finishWithin fuel) := by
  induction fuel with
  | zero =>
    intro tokens
    simp [finishWithin, foldLevel_renumber]
  | succ fuel ih =>
    intro tokens
    simp only [finishWithin, length_map, foldCases_renumber ih, bind_map_left,
      foldLevel_renumber, map_bind, map_pure]

theorem finish_renumber : FinishRenumbers f finish := by
  intro tokens
  rw [finish, length_map, finishRenumbers_finishWithin]
  rfl

/-! ### Assembling lexemes -/

theorem pieces_renumber (tokens : List Token) : splitCommas.pieces (tokens.map (renumber f)) =
    (splitCommas.pieces tokens).map (map (renumber f)) := by
  induction tokens with
  | nil => rfl
  | cons t rest ih =>
    simp only [map_cons, splitCommas.pieces, isPunctuation_renumber, ih]
    split
    · rfl
    · cases splitCommas.pieces rest <;> rfl

theorem splitCommas_renumber (tokens : List Token) :
    splitCommas (tokens.map (renumber f)) = (splitCommas tokens).map (map (renumber f)) := by
  rw [splitCommas, splitCommas, isEmpty_map, pieces_renumber]
  split <;> rfl

theorem mapM_finish_renumber (pieces : List (List Token)) :
    (pieces.map (map (renumber f))).mapM finish =
      map (map (renumber f)) <$> pieces.mapM finish := by
  induction pieces with
  | nil => simp
  | cons piece rest ih => simp [mapM_cons, finish_renumber piece, ih]

/-- The open parenthesis with other indices. -/
def Frame.renumber (f : Nat → Nat) (frame : Frame) : Frame :=
  { frame with before := frame.before.map (Token.renumber f) }

/-- The state of the assembly with other indices. -/
def Assembly.renumber (f : Nat → Nat) (state : Assembly) : Assembly :=
  ⟨state.stack.map (Frame.renumber f), state.before.map (Token.renumber f)⟩

theorem closeFrame_renumber (frame : Frame) (inner : List Token) :
    closeFrame (frame.renumber f) (inner.map (renumber f)) =
      renumber f <$> closeFrame frame inner := by
  obtain ⟨call, before⟩ := frame
  cases call with
  | none => simp [closeFrame, Frame.renumber, finish_renumber inner, renumber, renumberAll_eq_map]
  | some fn =>
    have hargs := mapM_finish_renumber (f := f) (splitCommas inner)
    simp only [closeFrame, Frame.renumber, splitCommas_renumber, hargs, bind_map_left, map_bind,
      map_pure, renumber, renumberArgs_eq_map]

theorem ofLexeme_renumber (before : List Token) (l : Lexeme) :
    ofLexeme (before.map (renumber f)) (l.renumber f) = renumber f <$> ofLexeme before l := by
  obtain ⟨kind, spaced, start⟩ := l
  cases kind with
  | number text =>
    simp only [ofLexeme, Lexeme.renumber, LexemeKind.renumber]
    cases Literal.ofNumber? text <;> rfl
  | star =>
    cases before with
    | nil => rfl
    | cons last before =>
      simp only [ofLexeme, Lexeme.renumber, LexemeKind.renumber, map_cons, isOperand_renumber]
      split <;> rfl
  | _ => rfl

theorem readName_renumber (first : String) (rest : List Lexeme) :
    readName first (rest.map (Lexeme.renumber f)) = Prod.map (renumber f) id <$> readName first rest := by
  rcases rest with _ | ⟨⟨kind, spaced, start⟩, _ | ⟨⟨member, spaced', start'⟩, rest⟩⟩
  · rfl
  · cases kind <;> rfl
  · cases kind with
    | dot => cases member <;> rfl
    | _ => rfl

theorem assembleOne_renumber (state : Assembly) (l : Lexeme) (rest : List Lexeme) :
    assembleOne (state.renumber f) (l.renumber f) (rest.map (Lexeme.renumber f)) =
      Prod.map (Assembly.renumber f) id <$> assembleOne state l rest := by
  obtain ⟨kind, spaced, start⟩ := l
  -- a name that no call begins with
  have hname (first : String) : (readName first (rest.map (Lexeme.renumber f)) >>= fun x =>
        .ok (⟨(state.renumber f).stack, x.1 :: (state.renumber f).before⟩, x.2)) =
      Prod.map (Assembly.renumber f) id <$> (readName first rest >>= fun x =>
        .ok (⟨state.stack, x.1 :: state.before⟩, x.2)) := by
    rw [readName_renumber]
    cases readName first rest <;> rfl
  have htoken (kind : LexemeKind) :
      (ofLexeme (state.renumber f).before (Lexeme.renumber f ⟨kind, spaced, start⟩) >>= fun t =>
        .ok (⟨(state.renumber f).stack, t :: (state.renumber f).before⟩, 0)) =
      Prod.map (Assembly.renumber f) id <$> (ofLexeme state.before ⟨kind, spaced, start⟩ >>= fun t =>
        .ok (⟨state.stack, t :: state.before⟩, 0)) := by
    rw [Assembly.renumber, ofLexeme_renumber]
    cases ofLexeme state.before ⟨kind, spaced, start⟩ <;> rfl
  cases kind with
  | lparen => rfl
  | rparen =>
    obtain ⟨stack, before⟩ := state
    cases stack with
    | nil => rfl
    | cons frame stack =>
      have hclose := closeFrame_renumber (f := f) frame before.reverse
      rw [map_reverse] at hclose
      simp only [assembleOne, Assembly.renumber, Lexeme.renumber, LexemeKind.renumber, map_cons,
        hclose]
      cases closeFrame frame before.reverse <;> rfl
  | name first =>
    rcases rest with _ | ⟨⟨kind, spaced', start'⟩, rest⟩
    · rfl
    · cases kind with
      | lparen =>
        cases spaced' with
        | false => rfl
        | true => exact hname first
      | _ => exact hname first
  | quoted first => exact hname first
  | _ => exact htoken _

theorem assemble_renumber (state : Assembly) (lexemes : List Lexeme) :
    assemble (state.renumber f) (lexemes.map (Lexeme.renumber f)) =
      map (renumber f) <$> assemble state lexemes := by
  fun_induction assemble state lexemes with
  | case1 state hstack =>
    obtain ⟨stack, before⟩ := state
    obtain rfl : stack = [] := isEmpty_iff.mp hstack
    simp [assemble, Assembly.renumber]
  | case2 state hstack =>
    have hstack' : (state.renumber f).stack.isEmpty = false := by
      simpa [Assembly.renumber] using hstack
    simp [assemble, hstack']
  | case3 state l rest state' taken hone ih =>
    rw [map_cons, assemble, assembleOne_renumber, hone]
    simp only [map_drop] at ih
    exact ih
  | case4 state l rest e hone =>
    rw [map_cons, assemble, assembleOne_renumber, hone]
    rfl

/-- Renumbered lexemes are put together to renumbered tokens. -/
theorem group_renumber (lexemes : List Lexeme) :
    group (lexemes.map (Lexeme.renumber f)) = map (renumber f) <$> group lexemes := by
  have hassemble := assemble_renumber (f := f) ⟨[], []⟩ lexemes
  rw [show Assembly.renumber f ⟨[], []⟩ = ⟨[], []⟩ from rfl] at hassemble
  simp [group, hassemble, finish_renumber _]

end

end Token

end DocSql
