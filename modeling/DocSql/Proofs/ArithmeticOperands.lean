import DocSql.Proofs.JoinedText
import DocSql.Proofs.OperatorChains

/-! # Operands of arithmetic

Two texts that are one operand each, with the sign of an arithmetic operation between them.  The
lexemes of the second one are put together behind the sign as they are on their own, since the sign is
no operand (`assemble_onto`), and the level is folded into the operation (`foldLevel_operation`).  Two
readings stand in the way (`Misread`).  Behind END a star stands for all columns, because a CASE
expression is only folded later; and no operand may come behind a star, so that the sign of a number
is an operator there.  Then there are tokens that stay whatever is folded (`StartsLevel`), and the text
is not one token.
-/
namespace DocSql
open Compiled List

namespace Token

variable {tokens raw : List Token} {f : List Token → Except ParseError (List Token)}
  {left x : Token}

/-! ### Assembling behind other tokens -/

/-- The open parentheses with more tokens before the outermost one. -/
def Frame.onto (base : List Token) : List Frame → List Frame
  | [] => []
  | [frame] => [{ frame with before := frame.before ++ base }]
  | frame :: next :: rest => frame :: onto base (next :: rest)

/-- The state of the assembly with more tokens before all others. -/
def Assembly.onto (base : List Token) (state : Assembly) : Assembly where
  stack := Frame.onto base state.stack
  before := if state.stack.isEmpty then state.before ++ base else state.before

section

variable {base : List Token}

theorem Assembly.onto_push (state : Assembly) (t : Token) :
    Assembly.onto base ⟨state.stack, t :: state.before⟩ =
      ⟨(state.onto base).stack, t :: (state.onto base).before⟩ := by
  obtain ⟨stack, before⟩ := state
  cases stack <;> rfl

theorem Assembly.onto_enter (state : Assembly) (call : Option String) :
    Assembly.onto base ⟨⟨call, state.before⟩ :: state.stack, []⟩ =
      ⟨⟨call, (state.onto base).before⟩ :: (state.onto base).stack, []⟩ := by
  obtain ⟨stack, before⟩ := state
  cases stack <;> rfl

/-- Closing a parenthesis leaves the tokens before all others where they are. -/
theorem Assembly.exists_onto_close (frame : Frame) (stack : List Frame) (before : List Token) :
    ∃ frame' stack', Assembly.onto base ⟨frame :: stack, before⟩ = ⟨frame' :: stack', before⟩ ∧
      frame'.call = frame.call ∧
      ∀ t, Assembly.onto base ⟨stack, t :: frame.before⟩ = ⟨stack', t :: frame'.before⟩ := by
  cases stack with
  | nil => exact ⟨{ frame with before := frame.before ++ base }, [], rfl, rfl, fun _ => rfl⟩
  | cons next stack => exact ⟨frame, Frame.onto base (next :: stack), rfl, rfl, fun _ => rfl⟩

variable (hbase : ∀ t ∈ base.head?, t.isOperand = false)

include hbase

/-- Whether a star is an operator is the same behind a token that is no operand and behind none. -/
theorem ofLexeme_onto (state : Assembly) (l : Lexeme) :
    ofLexeme (state.onto base).before l = ofLexeme state.before l := by
  obtain ⟨kind, spaced, start⟩ := l
  cases kind with
  | star =>
    obtain ⟨stack, before⟩ := state
    cases stack with
    | cons frame stack => rfl
    | nil =>
      cases before with
      | cons last before => rfl
      | nil =>
        cases base with
        | nil => rfl
        | cons t base => simp [Assembly.onto, ofLexeme, hbase t rfl]
  | _ => rfl

/-- A step of the assembly leaves alone what stands before all other tokens. -/
theorem assembleOne_onto (state : Assembly) (l : Lexeme) (rest : List Lexeme) :
    assembleOne (state.onto base) l rest =
      Prod.map (Assembly.onto base) id <$> assembleOne state l rest := by
  obtain ⟨kind, spaced, start⟩ := l
  -- a name that no call begins with
  have hname (first : String) : (readName first rest >>= fun x =>
        .ok (⟨(state.onto base).stack, x.1 :: (state.onto base).before⟩, x.2)) =
      Prod.map (Assembly.onto base) id <$> (readName first rest >>= fun x =>
        .ok (⟨state.stack, x.1 :: state.before⟩, x.2)) := by
    cases readName first rest with
    | error e => rfl
    | ok x => exact congrArg (fun s => Except.ok (s, x.2)) (state.onto_push x.1).symm
  have htoken (kind : LexemeKind) :
      (ofLexeme (state.onto base).before ⟨kind, spaced, start⟩ >>= fun t =>
        .ok (⟨(state.onto base).stack, t :: (state.onto base).before⟩, 0)) =
      Prod.map (Assembly.onto base) id <$> (ofLexeme state.before ⟨kind, spaced, start⟩ >>= fun t =>
        .ok (⟨state.stack, t :: state.before⟩, 0)) := by
    rw [ofLexeme_onto hbase]
    cases ofLexeme state.before ⟨kind, spaced, start⟩ with
    | error e => rfl
    | ok t => exact congrArg (fun s => Except.ok (s, 0)) (state.onto_push t).symm
  cases kind with
  | lparen => exact congrArg (fun s => Except.ok (s, 0)) (state.onto_enter none).symm
  | rparen =>
    obtain ⟨stack, before⟩ := state
    cases stack with
    | nil => rfl
    | cons frame stack =>
      obtain ⟨frame', stack', honto, hcall, hclosed⟩ := Assembly.exists_onto_close frame stack before
      have hclose : closeFrame frame' before.reverse = closeFrame frame before.reverse := by
        rw [closeFrame, hcall, closeFrame]
      rw [honto]
      simp only [assembleOne, hclose]
      cases closeFrame frame before.reverse with
      | error e => rfl
      | ok t => exact congrArg (fun s => Except.ok (s, 0)) (hclosed t).symm
  | name first =>
    rcases rest with _ | ⟨⟨kind, spaced', start'⟩, rest⟩
    · exact hname first
    · cases kind with
      | lparen =>
        cases spaced' with
        | false => exact congrArg (fun s => Except.ok (s, 1)) (state.onto_enter (some first)).symm
        | true => exact hname first
      | _ => exact hname first
  | quoted first => exact hname first
  | _ => exact htoken _

/-- Lexemes are put together to the same tokens behind others, if the last of those is no operand. -/
theorem assemble_onto (state : Assembly) (lexemes : List Lexeme) :
    assemble (state.onto base) lexemes = (base.reverse ++ ·) <$> assemble state lexemes := by
  fun_induction assemble state lexemes with
  | case1 state hstack =>
    obtain ⟨stack, before⟩ := state
    obtain rfl : stack = [] := isEmpty_iff.mp hstack
    simp [assemble, Assembly.onto, Frame.onto]
  | case2 state hstack =>
    obtain ⟨stack, before⟩ := state
    rcases stack with _ | ⟨frame, _ | ⟨next, stack⟩⟩
    · exact absurd rfl hstack
    · simp [assemble, Assembly.onto, Frame.onto]
    · simp [assemble, Assembly.onto, Frame.onto]
  | case3 state l rest state' taken hone ih =>
    rw [assemble, assembleOne_onto hbase, hone]
    exact ih
  | case4 state l rest e hone =>
    rw [assemble, assembleOne_onto hbase, hone]
    rfl

end

/-! ### Single operands -/

/-- Whether the token is an operand of its own: no operation, and without an alias. -/
def isBare : Token → Bool
  | .name .. | .literal _ | .placeholder _ | .paren _ | .call .. | .caseOf .. => true
  | _ => false

/-- Whether the token is a CASE expression. -/
def isCase : Token → Bool
  | .caseOf .. => true
  | _ => false

variable {t : Token}

theorem isOperand_of_isBare (h : t.isBare = true) : t.isOperand = true := by
  cases t <;> first | rfl | cases h

theorem spread_of_isBare (h : t.isBare = true) : spread t = [t] := by
  cases t <;> first | rfl | cases h

theorem isBare_of_unnumbered {t' : Token} (h : t'.unnumbered = t.unnumbered) :
    t'.isBare = t.isBare := by
  have hbare (t : Token) : t.unnumbered.isBare = t.isBare := by cases t <;> rfl
  rw [← hbare t', h, hbare t]

/-- A level that is folded into a single operand is this operand. -/
theorem eq_of_foldLevel (hspread : ∀ u ∈ tokens, spread u = [u]) (ht : t.isBare = true)
    (h : foldLevel tokens = [t]) : tokens = [t] := by
  obtain ⟨-, respelled, hcanon, hlabelled⟩ := foldLevel_spread hspread
  rw [h, flatMap_singleton, spread_of_isBare ht] at hlabelled
  obtain rfl : respelled = [t] := by
    cases hlabelled with
    | cons more =>
      generalize (!t.isOperator) = free at more
      cases more
      rfl
  obtain ⟨u, rest, rfl, hu, hrest⟩ := map_eq_cons_iff.mp hcanon.symm
  obtain rfl := map_eq_nil_iff.mp hrest
  rcases eq_or_of_canon hu with rfl | ⟨-, op, -, -, -, rfl⟩
  · rfl
  · cases ht

/-- Where a level is finished as a single operand, its CASE expressions are folded into it. -/
theorem foldCases_of_finish (hflat : ∀ u ∈ raw, flat u = [u]) (ht : t.isBare = true)
    (h : finish raw = .ok [t]) : foldCases finish raw.length raw = .ok [t] := by
  rw [finish_eq] at h
  obtain ⟨folded, hfolded, h⟩ := bind_eq_ok.mp h
  have hall := folded_of_foldCases (fun xs ys _ hxs hys => finished_of_finish hxs hys)
    (Nat.le_refl _) hflat hfolded
  rw [eq_of_foldLevel (fun u hu => (hall.refolds u hu).spread_eq) ht (Except.ok.inj h)] at hfolded
  exact hfolded

theorem eq_nil_of_foldCases {n : Nat} (h : foldCases f n tokens = .ok []) : tokens = [] := by
  cases n with
  | zero => exact Except.ok.inj h
  | succ n =>
    cases tokens with
    | nil => rfl
    | cons u rest =>
      rw [foldCases] at h
      split at h
      · split at h
        · cases h
        · obtain ⟨token, -, h⟩ := bind_eq_ok.mp h
          obtain ⟨after, -, h⟩ := bind_eq_ok.mp h
          cases h
      · obtain ⟨rest', -, h⟩ := bind_eq_ok.mp h
        cases h

theorem isCase_of_flat (h : flat t = [t]) : t.isCase = false := by
  cases t with
  | caseOf operand arms =>
    cases h
  | _ => rfl

theorem isCase_of_readCase {body : List Token} (h : readCase f body = .ok t) : t.isCase = true := by
  obtain ⟨operand, -, h⟩ := ite_bind_eq_ok.mp h
  obtain ⟨arms, -, rfl⟩ := bind₁_eq_ok.mp h
  rfl

/-- A level that is folded into a single operand ends with an operand, or with END where the operand is
a CASE expression. -/
theorem exists_last_of_foldCases (hflat : ∀ u ∈ raw, flat u = [u]) (ht : t.isBare = true)
    (h : foldCases finish raw.length raw = .ok [t]) :
    ∃ before last, raw = before ++ [last] ∧ last.isOperand = !t.isCase := by
  cases raw with
  | nil => cases h
  | cons u rest =>
    rw [length_cons, foldCases] at h
    split at h
    · split at h
      · cases h
      · rename_i body after hsplit
        obtain ⟨token, htoken, after', hafter, h⟩ := bind₂_eq_ok.mp h
        cases h
        obtain rfl := eq_nil_of_foldCases hafter
        obtain ⟨-, rfl⟩ := Closes.of_splitCase hsplit
        refine ⟨u :: body, .keyword .END, rfl, ?_⟩
        rw [isCase_of_readCase htoken]
        rfl
    · obtain ⟨rest', hrest, h⟩ := bind_eq_ok.mp h
      cases h
      obtain rfl := eq_nil_of_foldCases hrest
      refine ⟨[], t, rfl, ?_⟩
      rw [isOperand_of_isBare ht, isCase_of_flat (hflat t mem_cons_self)]
      rfl

/-- How a text is read that is a single operand: its lexemes, and the tokens that they are put together
to before the level is folded. -/
structure OperandReading (holes : Nat) (sql : String) (t : Token) (count : Nat) where
  lexemes : List Lexeme
  before : List Token
  last : Token
  reads : (LexState.mk 0 holes none sql.toList).reads? = some (lexemes, count)
  assembles : assemble ⟨[], []⟩ lexemes = .ok (before ++ [last])
  folds : foldCases finish (before ++ [last]).length (before ++ [last]) = .ok [t]
  ends : last.isOperand = !t.isCase
  isOperand : t.isOperand = true

theorem exists_operandReading {holes count : Nat} {sql : String}
    (h : ofTextFrom holes sql = .ok ([t], count)) (ht : t.isBare = true) :
    Nonempty (OperandReading holes sql t count) := by
  obtain ⟨lexemes, hreads, hgroup⟩ := ofTextFrom_eq_ok.mp h
  obtain ⟨raw, hraw, hfinish⟩ := bind_eq_ok.mp hgroup
  obtain ⟨⟨placed, count'⟩, hlex, heq⟩ := Option.map_eq_some_iff.mp hreads
  cases heq
  have hplaced : assemble ⟨[], []⟩ placed = .ok raw := by
    rw [← toOption_eq_some, ← assemble_unplaced, hraw]
    rfl
  have hfit := LexState.fit_of_lex (toOption_eq_some.mp hlex)
  have hstart : AssemblyFits true none ⟨[], []⟩ :=
    ⟨⟨trivial, forall_mem_nil _, forall_mem_nil _⟩, fun _ => .inl rfl⟩
  have hchain := chain_assemble hstart hfit hplaced
  have hflat : ∀ u ∈ raw, flat u = [u] := fun u hu => ((chain_stands.mp hchain).2 u hu).flat_eq
  have hfolds := foldCases_of_finish hflat ht hfinish
  obtain ⟨before, last, rfl, hlast⟩ := exists_last_of_foldCases hflat ht hfolds
  exact ⟨⟨_, before, last, hreads, hraw, hfolds, hlast, isOperand_of_isBare ht⟩⟩

/-! ### An operation between two operands -/

/-- What the sign of an operation is read as behind an operand: the operator, but a star behind a CASE
expression stands for all columns. -/
def signToken (left : Token) (o : Arithmetic) : Token :=
  if o = .mul ∧ left.isCase = true then .wildcard else .operator o.text

theorem isOperand_signToken (left : Token) (o : Arithmetic) :
    (signToken left o).isOperand = false := by
  unfold signToken
  split <;> rfl

theorem assembleOne_sign {last : Token} (before : List Token)
    (hlast : last.isOperand = !left.isCase) (o : Arithmetic) (more : List Lexeme) :
    assembleOne ⟨[], last :: before⟩ ⟨o.lexeme, true, 0⟩ more =
      .ok (⟨[], signToken left o :: last :: before⟩, 0) := by
  cases o with
  | mul => cases hcase : left.isCase <;>
      simp [assembleOne, Arithmetic.lexeme, ofLexeme, signToken, hlast, hcase, Arithmetic.text]
  | _ => rfl

/-- The sign of an operation and the lexemes behind it, after those of an operand. -/
theorem assemble_joined {last : Token} {lexemes : List Lexeme} {before : List Token}
    (hraw : assemble ⟨[], []⟩ lexemes = .ok (before ++ [last]))
    (hlast : last.isOperand = !left.isCase) (o : Arithmetic) (more : List Lexeme) :
    assemble ⟨[], []⟩ (lexemes ++ ⟨o.lexeme, true, 0⟩ :: more) =
      (before ++ [last] ++ signToken left o :: ·) <$> assemble ⟨[], []⟩ more := by
  have hapart : Lexeme.Apart (⟨o.lexeme, true, 0⟩ :: more) := by
    rintro l ⟨⟩
    cases o <;> exact ⟨nofun, nofun⟩
  have hbase : ∀ t ∈ (signToken left o :: last :: before.reverse).head?, t.isOperand = false := by
    rintro t ⟨⟩
    exact isOperand_signToken left o
  have honto := assemble_onto hbase ⟨[], []⟩ more
  rw [assemble_append hapart hraw, reverse_append, reverse_singleton,
    singleton_append, assemble, assembleOne_sign _ hlast]
  refine honto.trans ?_
  simp

/-- Two operands with an operator between them are folded into the operation. -/
theorem foldLevel_operation {right : Token} (hleft : left.isOperand = true)
    (hright : right.isOperand = true) (o : Arithmetic) :
    foldLevel [left, .operator o.text, right] = [.operation left o right] := by
  let sign : Arithmetic.Sign := ⟨o.text, o, by cases o <;> rfl⟩
  have hreads : ReadsSum [left, .operator o.text, right] (.operation left o right) := by
    cases hstrength : o.isMultiplicative with
    | true => exact .product (.times sign hstrength (.operand hleft) hright)
    | false => exact .plus sign hstrength (.product (.operand hleft)) (.operand hright)
  exact (ReadsChain.sum hreads).foldsTo.foldLevel_eq rfl

/-- What stands behind a token that is no operand is folded apart from what stands before it. -/
theorem exists_foldBinary_behind (hx : x.isOperand = false)
    (select : String → Option (Token → Token → Token)) (done out rest : List Token) :
    ∃ rest', foldBinary select (done ++ x :: out) rest = (x :: out).reverse ++ rest' := by
  generalize hall : done ++ x :: out = all
  fun_induction foldBinary select all rest generalizing done with
  | case1 all => exact ⟨done.reverse, by simp [← hall]⟩
  | case2 all t => exact ⟨done.reverse ++ [t], by simp [← hall]⟩
  | case3 all t right rest all' hjoin ih =>
    obtain ⟨op, build, left, before, -, -, hleft, hoperand, -, rfl⟩ := joinOver?_eq_some hjoin
    rcases done with _ | ⟨last, done⟩
    · obtain ⟨rfl, -⟩ := cons.inj (hall.trans hleft)
      rw [hx] at hoperand
      cases hoperand
    · obtain ⟨-, rfl⟩ := cons.inj (hall.trans hleft)
      exact ih (build left right :: done) rfl
  | case4 all t right rest hjoin ih => exact ih (t :: done) (by rw [← hall]; rfl)

/-- What stands behind a token that can have no alias gets its aliases apart from it. -/
theorem exists_foldAliases_behind (hx : x.isAliasable = false) (done out rest : List Token) :
    ∃ rest', foldAliases (done ++ x :: out) rest = (x :: out).reverse ++ rest' := by
  have hpush (done : List Token) (t : Token) :
      ∃ done', pushAlias (done ++ x :: out) t = done' ++ x :: out := by
    rcases pushAlias_cases (done ++ x :: out) t with
      hpush | ⟨label, target, before, -, hall, htarget, hpush, -⟩
    · exact ⟨t :: done, hpush⟩
    · rcases done with _ | ⟨last, done⟩
      · obtain ⟨rfl, -⟩ := cons.inj hall
        rw [hx] at htarget
        cases htarget
      · obtain ⟨rfl, rfl⟩ := cons.inj hall
        exact ⟨.aliased last label :: done, hpush⟩
  generalize hall : done ++ x :: out = all
  fun_induction foldAliases all rest generalizing done with
  | case1 all => exact ⟨done.reverse, by simp [← hall]⟩
  | case2 all t =>
    obtain ⟨done', hdone⟩ := hpush done t
    exact ⟨done'.reverse, by rw [← hall, hdone]; simp⟩
  | case3 all t next rest all' halias ih =>
    obtain ⟨label, target, before, -, -, hbefore, htarget, rfl⟩ := aliasAfterAs?_eq_some halias
    rcases done with _ | ⟨last, done⟩
    · obtain ⟨rfl, -⟩ := cons.inj (hall.trans hbefore)
      rw [hx] at htarget
      cases htarget
    · obtain ⟨rfl, rfl⟩ := cons.inj (hall.trans hbefore)
      exact ih (.aliased last label :: done) rfl
  | case4 all t next rest halias ih =>
    obtain ⟨done', hdone⟩ := hpush done t
    exact ih done' (by rw [← hall, hdone])

/-- Tokens that stay at the start of a level whatever stands behind them. -/
def StartsLevel (tokens : List Token) : Prop :=
  ∀ rest, ∃ rest', foldLevel (tokens ++ rest) = tokens ++ rest'

/-- Tokens that each pass goes over one by one stay if the last one is neither an operand nor can have
an alias. -/
theorem startsLevel_of_passes {out : List Token} (hx : x.isOperand = false)
    (halias : x.isAliasable = false) (hbinary : ∀ select rest,
      foldBinary select [] ((x :: out).reverse ++ rest) = foldBinary select (x :: out) rest)
    (hnames : ∀ rest, foldAliases [] ((x :: out).reverse ++ rest) = foldAliases (x :: out) rest) :
    StartsLevel (x :: out).reverse := by
  have hpass (select : String → Option (Token → Token → Token)) (rest : List Token) :
      ∃ rest', foldBinary select [] ((x :: out).reverse ++ rest) = (x :: out).reverse ++ rest' := by
    rw [hbinary]
    exact exists_foldBinary_behind hx select [] out rest
  intro rest
  obtain ⟨products, hproducts⟩ := hpass (arithmeticOf true) rest
  obtain ⟨sums, hsums⟩ := hpass (arithmeticOf false) products
  obtain ⟨compared, hcompared⟩ := hpass comparisonOf sums
  obtain ⟨named, hnamed⟩ := exists_foldAliases_behind halias [] out compared
  refine ⟨named, ?_⟩
  simp only [foldLevel, hproducts, hsums, hcompared, hnames]
  exact hnamed

section

variable (hleft : left.isOperand = true)

include hleft

theorem foldAliases_operand (rest : List Token) :
    foldAliases [] (left :: rest) = foldAliases [left] rest :=
  foldAliases_keep (isKeyword_of_isOperand hleft .AS) (.inl (by simp))

/-- A star that stands for all columns parts what is before it from what is behind it. -/
theorem startsLevel_wildcard : StartsLevel [left, .wildcard] := by
  refine @startsLevel_of_passes .wildcard [left] rfl rfl (fun select rest => ?_) fun rest => ?_
  · have hfolds : Folds select [left, .wildcard] [left, .wildcard] :=
      (Folds.token (isOperator_of_isOperand hleft)).append (Folds.token (t := .wildcard) rfl)
    exact hfolds [] rest
  · have hname (label : String) : Token.wildcard ≠ .name none label := by simp
    exact (foldAliases_operand hleft _).trans (foldAliases_keep rfl (.inr hname))

/-- Two operators behind one another part what is before them from what is behind them. -/
theorem startsLevel_operators (op op' : String) : StartsLevel [left, .operator op, .operator op'] := by
  refine @startsLevel_of_passes (.operator op') [.operator op, left] rfl rfl (fun select rest => ?_)
    fun rest => ?_
  · have hfirst : Folds select [left] [left] := .token (isOperator_of_isOperand hleft)
    have hsecond : joinOver? select [left] (.operator op) (.operator op') = none :=
      joinOver?_eq_none_of_right rfl
    have hthird (right : Token) :
        joinOver? select [.operator op, left] (.operator op') right = none := by
      cases hselect : select op' <;> simp [joinOver?, hselect, isOperand]
    refine (hfirst [] (.operator op :: .operator op' :: rest)).trans ?_
    show foldBinary select [left] (.operator op :: .operator op' :: rest) = _
    rw [foldBinary, hsecond]
    cases rest with
    | nil => rfl
    | cons right rest => rw [foldBinary, hthird]
  · have hname (op label : String) : Token.operator op ≠ .name none label := by simp
    refine (foldAliases_operand hleft _).trans ?_
    exact (foldAliases_keep rfl (.inr (hname op))).trans (foldAliases_keep rfl (.inr (hname op')))

end

theorem foldCases_append_free {folded tail : List Token}
    (h : foldCases finish raw.length raw = .ok folded)
    (htail : ∀ t ∈ tail, t.isKeyword .CASE = false) :
    foldCases finish (raw ++ tail).length (raw ++ tail) = .ok (folded ++ tail) := by
  rw [foldCases_append tail h (Nat.le_refl _) (Nat.le_of_eq length_append.symm),
    foldCases_of_free htail]
  rfl

/-- A level that starts with several tokens that stay is no single token. -/
theorem StartsLevel.finish_ne {folded : List Token} (h : StartsLevel folded)
    (hfolded : foldCases finish raw.length raw = .ok folded) (hlength : 2 ≤ folded.length)
    (more : List Token) (t : Token) : finish (raw ++ more) ≠ .ok [t] := by
  intro hfinish
  rw [finish_eq, foldCases_append more hfolded (Nat.le_refl _) (Nat.le_of_eq length_append.symm)]
    at hfinish
  obtain ⟨all, hall, hfinish⟩ := bind_eq_ok.mp hfinish
  obtain ⟨rest, -, rfl⟩ := map_eq_ok.mp hall
  obtain ⟨rest', hrest⟩ := h rest
  have hsingle := congrArg length (hrest.symm.trans (Except.ok.inj hfinish))
  rw [length_append, length_singleton] at hsingle
  omega

/-! ### The texts of operands -/

/-- Whether there are blanks before the first lexeme does not matter. -/
theorem assemble_spaced (state : Assembly) (l : Lexeme) (spaced : Bool) (rest : List Lexeme) :
    assemble state ({ l with spaced } :: rest) = assemble state (l :: rest) := by
  have hone : assembleOne state { l with spaced } rest = assembleOne state l rest := by
    obtain ⟨kind, spaced', start⟩ := l
    cases kind <;> rfl
  rw [assemble, hone, assemble]

/-- The text of an operation between the texts of its operands. -/
def operationText (left : String) (o : Arithmetic) (right : String) : String :=
  left ++ " " ++ o.text ++ " " ++ right

theorem toList_operationText (left : String) (o : Arithmetic) (right : String) :
    (operationText left o right).toList =
      left.toList ++ ' ' :: (o.text.toList ++ ' ' :: right.toList) := by
  simp [operationText]

/-- The operation is not read between the operand and the text: a star behind a CASE expression stands
for all columns, and behind a star a minus sign is an operator. -/
def Misread (left : Token) (o : Arithmetic) (right : String) : Prop :=
  o = .mul ∧ (left.isCase = true ∨ (right.toList.dropWhile Text.isBlank).head? = some '-')

namespace OperandReading

variable {left right : String} {a b : Token} {m k : Nat} {o : Arithmetic}

/-- What is read of an operation between an operand and a text. -/
theorem ofText_eq_ok (x : OperandReading 0 left a m) {count : Nat} :
    ofText (operationText left o right) = .ok (tokens, count) ↔ ∃ more raw,
      LexState.reads? ⟨0, m, some o.lexeme, ' ' :: right.toList⟩ = some (more, count) ∧
      assemble ⟨[], []⟩ more = .ok raw ∧
      finish (x.before ++ [x.last] ++ signToken a o :: raw) = .ok tokens := by
  have hreads : (LexState.mk 0 0 none (operationText left o right).toList).reads? =
      (LexState.reads? ⟨0, m, some o.lexeme, ' ' :: right.toList⟩).map
        (Prod.map (x.lexemes ++ ⟨o.lexeme, true, 0⟩ :: ·) id) := by
    rw [toList_operationText]
    exact LexState.reads?_joined x.reads o right.toList
  have hassemble := assemble_joined x.assembles x.ends o
  show ofTextFrom 0 (operationText left o right) = _ ↔ _
  rw [ofTextFrom_eq_ok]
  constructor
  · rintro ⟨lexemes, hlexemes, hgroup⟩
    rw [hreads] at hlexemes
    obtain ⟨⟨more, count'⟩, hmore, heq⟩ := Option.map_eq_some_iff.mp hlexemes
    cases heq
    obtain ⟨all, hall, hfinish⟩ := bind_eq_ok.mp hgroup
    rw [hassemble] at hall
    obtain ⟨raw, hraw, rfl⟩ := map_eq_ok.mp hall
    exact ⟨more, raw, hmore, hraw, hfinish⟩
  · rintro ⟨more, raw, hmore, hraw, hfinish⟩
    refine ⟨x.lexemes ++ ⟨o.lexeme, true, 0⟩ :: more, ?_, bind_eq_ok.mpr ⟨_, ?_, hfinish⟩⟩
    · rw [hreads, hmore]
      rfl
    · rw [hassemble]
      exact map_eq_ok.mpr ⟨raw, hraw, rfl⟩

theorem operation (x : OperandReading 0 left a m) (y : OperandReading m right b k)
    (h : ¬Misread a o right) :
    ofText (operationText left o right) = .ok ([.operation a o b], k) := by
  obtain ⟨lexemes, before, last, hreads, hraw, hfolds, -, hb⟩ := y
  cases lexemes with
  | nil =>
    rw [assemble] at hraw
    exact absurd (Except.ok.inj hraw) (by simp)
  | cons l lexemes =>
    -- only behind a star it matters whether the second text starts with a minus sign
    have hfirst : Scan.opensOperand (some o.lexeme) = true ∨
        (right.toList.dropWhile Text.isBlank).head? ≠ some '-' := by
      by_cases hmul : o = .mul
      · exact .inr fun hminus => h ⟨hmul, .inr hminus⟩
      · left
        cases o <;> first | rfl | exact absurd rfl hmul
    have hsign : signToken a o = .operator o.text := if_neg fun hstar => h ⟨hstar.1, .inl hstar.2⟩
    refine x.ofText_eq_ok.mpr ⟨_, before ++ [last], LexState.reads?_behind hreads hfirst, ?_, ?_⟩
    · rw [assemble_spaced, hraw]
    · have hbehind : foldCases finish (.operator o.text :: (before ++ [last])).length
          (.operator o.text :: (before ++ [last])) = .ok [.operator o.text, b] := by
        rw [length_cons, foldCases, if_neg (by simp [isKeyword]), hfolds]
        rfl
      rw [hsign, finish_eq, foldCases_append _ x.folds (Nat.le_refl _)
        (Nat.le_of_eq length_append.symm), hbehind]
      exact congrArg Except.ok (foldLevel_operation x.isOperand hb o)

/-- A text that is misread is not one token: the star stands for all columns, or the minus sign is an
operator behind it. -/
theorem ne_single (x : OperandReading 0 left a m) (h : Misread a o right) (t : Token) (count : Nat) :
    ofText (operationText left o right) ≠ .ok ([t], count) := by
  intro hread
  obtain ⟨more, raw, hmore, hraw, hfinish⟩ := x.ofText_eq_ok.mp hread
  obtain ⟨rfl, hstart⟩ := h
  cases hcase : a.isCase with
  | true =>
    have hsign : signToken a .mul = .wildcard := if_pos ⟨rfl, hcase⟩
    rw [hsign, append_cons] at hfinish
    exact (startsLevel_wildcard x.isOperand).finish_ne
      (foldCases_append_free x.folds (by simp [isKeyword]))
      (Nat.le_refl 2) raw t hfinish
  | false =>
    obtain ⟨cs, hminus⟩ := head?_eq_some_iff.mp (hstart.resolve_left (by simp [hcase]))
    have hsign : signToken a .mul = .operator "*" := if_neg (by simp [hcase])
    rw [LexState.reads?_minus rfl hminus] at hmore
    obtain ⟨⟨more', count'⟩, -, heq⟩ := Option.map_eq_some_iff.mp hmore
    cases heq
    have hbase : ∀ t ∈ [Token.operator "-"].head?, t.isOperand = false := by
      rintro t ⟨⟩
      rfl
    have hone : assemble ⟨[], []⟩ (⟨.operator "-", true, 0⟩ :: more') =
        assemble (Assembly.onto [.operator "-"] ⟨[], []⟩) more' := by
      rw [assemble]
      rfl
    rw [hone, assemble_onto hbase] at hraw
    obtain ⟨raw', -, rfl⟩ := map_eq_ok.mp hraw
    have hsigns : x.before ++ [x.last] ++ signToken a .mul :: ([Token.operator "-"].reverse ++ raw') =
        x.before ++ [x.last] ++ [.operator "*", .operator "-"] ++ raw' := by
      rw [hsign]
      simp
    rw [hsigns] at hfinish
    exact (startsLevel_operators x.isOperand "*" "-").finish_ne
      (foldCases_append_free x.folds (by simp [isKeyword])) (Nat.le_succ 2) raw' t hfinish

end OperandReading

/-- **An operation between the texts of two operands is read as the operation of the operands**, with
the placeholders of the second one counted on from those of the first one.  This fails exactly for
multiplication behind a CASE expression or before a number below zero: then the text is not one
token. -/
theorem ofText_operation {left right : String} {a b : Token} {m n : Nat} (o : Arithmetic)
    (hleft : ofText left = .ok ([a], m)) (ha : a.isBare = true)
    (hright : ofText right = .ok ([b], n)) (hb : b.isBare = true) :
    ∃ b' k, ofTextFrom m right = .ok ([b'], k) ∧ b'.unnumbered = b.unnumbered ∧
      (m = 0 → b' = b) ∧
      (¬Misread a o right → ofText (operationText left o right) = .ok ([.operation a o b'], k)) ∧
      (Misread a o right → ∀ t j, ofText (operationText left o right) ≠ .ok ([t], j)) := by
  obtain ⟨tokens, k, hright', htokens⟩ :=
    exists_ofTextFrom (show ofTextFrom 0 right = .ok ([b], n) from hright) m
  obtain ⟨b', rest, rfl, hb', hrest⟩ := List.map_eq_cons_iff.mp htokens
  obtain rfl := List.map_eq_nil_iff.mp hrest
  obtain ⟨x⟩ := exists_operandReading (show ofTextFrom 0 left = .ok ([a], m) from hleft) ha
  obtain ⟨y⟩ := exists_operandReading hright' ((isBare_of_unnumbered hb').trans hb)
  refine ⟨b', k, hright', hb', ?_, x.operation y, x.ne_single⟩
  rintro rfl
  cases hright'.symm.trans (show ofTextFrom 0 right = .ok ([b], n) from hright)
  rfl

/-- A placeholder behind another one is the next; a star is misread before a sign and behind END. -/
theorem operations_read :
    ofText (operationText "?" .sub "?") = .ok ([.operation (.placeholder 0) .sub (.placeholder 1)], 2) ∧
      (∀ t j, ofText (operationText "?" .mul "-5") ≠ .ok ([t], j)) ∧
      ∀ t j, ofText (operationText "CASE WHEN 1 THEN 2 END" .mul "?") ≠ .ok ([t], j) := by
  have hhole : ofText "?" = .ok ([.placeholder 0], 1) := by cbv
  have hnext : ofTextFrom 1 "?" = .ok ([.placeholder 1], 2) := by cbv
  have hminus : ofText "-5" = .ok ([.literal (.int (-5))], 0) := by cbv
  have hcase : ofText "CASE WHEN 1 THEN 2 END" =
      .ok ([.caseOf [] (.arm [.literal (.int 1)] [.literal (.int 2)] .done)], 0) := by cbv
  refine ⟨?_, ?_, ?_⟩
  · obtain ⟨b', k, hb', -, -, hread, -⟩ := ofText_operation .sub hhole rfl hhole rfl
    cases hb'.symm.trans hnext
    exact hread fun h => by cases h.1
  · obtain ⟨b', k, -, -, -, -, hmisread⟩ := ofText_operation .mul hhole rfl hminus rfl
    exact hmisread ⟨rfl, .inr (by decide)⟩
  · obtain ⟨b', k, -, -, -, -, hmisread⟩ := ofText_operation .mul hcase rfl hhole rfl
    exact hmisread ⟨rfl, .inl rfl⟩

end Token

end DocSql
