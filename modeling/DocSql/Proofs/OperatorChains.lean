import DocSql.Proofs.LevelUnfolding

/-! # Chains of operators on a level

Between two separators of a level stands at most one chain: operands with arithmetic signs between
them, and possibly a comparison with more of the same behind it.  The conventional reading of a
chain is given by a grammar (`ReadsProduct`, `ReadsSum`, `ReadsChain`): `*`, `/` and `%` bind
tighter than `+` and `-`, both are read from the left, and a comparison is outermost.

A level is folded in three passes, each with a look behind and a look ahead.  `Folds` says what a
pass makes of a piece of the level whatever stands around it, so pieces can be put side by side.  A
chain folds into its reading (`ReadsChain.foldsTo`), and a row of chains into the row of their
readings (`finish_row`).
-/
namespace DocSql
open List

/-- A sign of an arithmetic operation. -/
structure Arithmetic.Sign where
  text : String
  op : Arithmetic
  writes : Arithmetic.ofOperator? text = some op

/-- A sign of a comparison. -/
structure Comparison.Sign where
  text : String
  op : Comparison
  writes : Comparison.ofOperator? text = some op

namespace Token

variable {t : Token}

/-! ### The conventional reading -/

/-- Operands with multiplicative signs between them. -/
inductive ReadsProduct : List Token → Token → Prop
  | operand {x : Token} (hx : x.isOperand = true) : ReadsProduct [x] x
  | times {tokens : List Token} {left x : Token} (sign : Arithmetic.Sign)
    (hsign : sign.op.isMultiplicative = true) (hleft : ReadsProduct tokens left)
    (hx : x.isOperand = true) :
    ReadsProduct (tokens ++ [.operator sign.text, x]) (.operation left sign.op x)

/-- Products with additive signs between them. -/
inductive ReadsSum : List Token → Token → Prop
  | product {tokens : List Token} {t : Token} (h : ReadsProduct tokens t) : ReadsSum tokens t
  | plus {tokens more : List Token} {left right : Token} (sign : Arithmetic.Sign)
    (hsign : sign.op.isMultiplicative = false) (hleft : ReadsSum tokens left)
    (hright : ReadsProduct more right) :
    ReadsSum (tokens ++ .operator sign.text :: more) (.operation left sign.op right)

/-- A sum, or two sums with a comparison between them. -/
inductive ReadsChain : List Token → Token → Prop
  | sum {tokens : List Token} {t : Token} (h : ReadsSum tokens t) : ReadsChain tokens t
  | compare {tokens more : List Token} {left right : Token} (sign : Comparison.Sign)
    (hleft : ReadsSum tokens left) (hright : ReadsSum more right) :
    ReadsChain (tokens ++ .operator sign.text :: more) (.comparison left sign.op right)

theorem ReadsProduct.isOperand {tokens : List Token} (h : ReadsProduct tokens t) :
    t.isOperand = true := by
  cases h with
  | operand hx => exact hx
  | times => rfl

theorem ReadsSum.isOperand {tokens : List Token} (h : ReadsSum tokens t) : t.isOperand = true := by
  cases h with
  | product h => exact h.isOperand
  | plus => rfl

/-! ### Chains and rows of chains -/

/-- A token that can stand beside an operator. -/
abbrev OperandToken := { t : Token // t.isOperand = true }

/-- Operands with arithmetic signs between them. -/
structure OperandRun where
  first : OperandToken
  rest : List (Arithmetic.Sign × OperandToken)

/-- A run of operands, and possibly a comparison with another one. -/
structure OperatorChain where
  left : OperandRun
  compared : Option (Comparison.Sign × OperandRun)

/-- What stands between chains. -/
inductive Separator where
  | punctuation (c : Char)
  | keyword (k : Keyword) (hcase : k ≠ .CASE) (has : k ≠ .AS)

/-- Chains with one separator between them.  There may be no chain before, between or behind
separators. -/
structure ChainRow where
  first : Option OperatorChain
  rest : List (Separator × Option OperatorChain)

namespace OperandRun

/-- The tokens of signs and operands. -/
def tail (rest : List (Arithmetic.Sign × OperandToken)) : List Token :=
  rest.flatMap fun x => [.operator x.1.text, x.2.1]

/-- The tokens of a run. -/
def tokens (run : OperandRun) : List Token := run.first.1 :: tail run.rest

/-- The sum that a product completes, where `sum` is what stands before it with its sign. -/
def complete (sum : Option (Token × Arithmetic)) (product : Token) : Token :=
  match sum with
  | some (left, op) => .operation left op product
  | none => product

/-- Reads signs and operands behind a sum and a product. -/
def readFrom (sum : Option (Token × Arithmetic)) (product : Token) :
    List (Arithmetic.Sign × OperandToken) → Token
  | [] => complete sum product
  | (sign, x) :: rest =>
    if sign.op.isMultiplicative then readFrom sum (.operation product sign.op x.1) rest
    else readFrom (some (complete sum product, sign.op)) x.1 rest

/-- The token that a run stands for. -/
def reading (run : OperandRun) : Token := readFrom none run.first.1 run.rest

end OperandRun

namespace OperatorChain

/-- The tokens of a chain. -/
def tokens (chain : OperatorChain) : List Token :=
  match chain.compared with
  | some (sign, right) => chain.left.tokens ++ .operator sign.text :: right.tokens
  | none => chain.left.tokens

/-- The token that a chain stands for. -/
def reading (chain : OperatorChain) : Token :=
  match chain.compared with
  | some (sign, right) => .comparison chain.left.reading sign.op right.reading
  | none => chain.left.reading

end OperatorChain

/-- The token of a separator. -/
def Separator.token : Separator → Token
  | .punctuation c => .punctuation c
  | .keyword k _ _ => .keyword k

namespace ChainRow

/-- The chains of a row. -/
def chains (row : ChainRow) : List OperatorChain :=
  row.first.toList ++ row.rest.flatMap fun x => x.2.toList

/-- What stands in a place of a row, with something put for its chain. -/
def place (f : OperatorChain → List Token) (chain : Option OperatorChain) : List Token :=
  chain.toList.flatMap f

/-- Separators, each with the place behind it. -/
def tail (f : OperatorChain → List Token) (rest : List (Separator × Option OperatorChain)) :
    List Token :=
  rest.flatMap fun x => x.1.token :: place f x.2

/-- The row with something put for each chain. -/
def fill (f : OperatorChain → List Token) (row : ChainRow) : List Token :=
  place f row.first ++ tail f row.rest

/-- The tokens of a row. -/
def tokens (row : ChainRow) : List Token := row.fill OperatorChain.tokens

/-- The row with each chain replaced by its reading. -/
def readings (row : ChainRow) : List Token := row.fill fun chain => [chain.reading]

end ChainRow

variable {tokens : List Token}

/-! ### Readings follow the grammar -/

/-- What stands before the product that is being read: nothing, or a sum and its sign. -/
inductive OpenSum : List Token → Option (Token × Arithmetic) → Prop
  | nothing : OpenSum [] none
  | sum {tokens : List Token} {left : Token} (sign : Arithmetic.Sign)
    (hsign : sign.op.isMultiplicative = false) (hleft : ReadsSum tokens left) :
    OpenSum (tokens ++ [.operator sign.text]) (some (left, sign.op))

theorem OpenSum.complete {before : List Token} {sum : Option (Token × Arithmetic)}
    {product : Token} (hsum : OpenSum before sum) (hproduct : ReadsProduct tokens product) :
    ReadsSum (before ++ tokens) (OperandRun.complete sum product) := by
  cases hsum with
  | nothing => exact .product hproduct
  | sum sign hsign hleft =>
    rw [append_assoc, singleton_append]
    exact .plus sign hsign hleft hproduct

/-- A multiplicative sign goes on with the product, and an additive one closes it. -/
theorem OpenSum.reads {rest : List (Arithmetic.Sign × OperandToken)} :
    ∀ {before tokens : List Token} {sum : Option (Token × Arithmetic)} {product : Token},
    OpenSum before sum → ReadsProduct tokens product →
    ReadsSum (before ++ tokens ++ OperandRun.tail rest) (OperandRun.readFrom sum product rest) := by
  induction rest with
  | nil =>
    intro before tokens sum product hsum hproduct
    simpa [OperandRun.tail, OperandRun.readFrom] using hsum.complete hproduct
  | cons head rest ih =>
    obtain ⟨sign, x⟩ := head
    intro before tokens sum product hsum hproduct
    cases hsign : sign.op.isMultiplicative with
    | true =>
      have hread := ih hsum (.times sign hsign hproduct x.2)
      simpa [OperandRun.tail, OperandRun.readFrom, hsign] using hread
    | false =>
      have hread := ih (.sum sign hsign (hsum.complete hproduct)) (.operand x.2)
      simpa [OperandRun.tail, OperandRun.readFrom, hsign] using hread

theorem OperandRun.reads (run : OperandRun) : ReadsSum run.tokens run.reading :=
  OpenSum.nothing.reads (.operand run.first.2)

theorem OperatorChain.reads (chain : OperatorChain) : ReadsChain chain.tokens chain.reading := by
  obtain ⟨left, compared⟩ := chain
  cases compared with
  | none => exact .sum left.reads
  | some compared => exact .compare compared.1 left.reads compared.2.reads

/-! ### What a pass makes of a piece -/

section

variable {select : String → Option (Token → Token → Token)} {a a' b b' : List Token}

/-- A pass folds a piece into another one, whatever is done before it and stands behind it. -/
def Folds (select : String → Option (Token → Token → Token)) (piece piece' : List Token) : Prop :=
  ∀ out rest, foldBinary select out (piece ++ rest) = foldBinary select (piece'.reverse ++ out) rest

theorem Folds.nil : Folds select [] [] := fun _ _ => rfl

theorem Folds.append (ha : Folds select a a') (hb : Folds select b b') :
    Folds select (a ++ b) (a' ++ b') := by
  intro out rest
  rw [append_assoc, ha, hb, reverse_append, append_assoc]

theorem Folds.foldBinary_eq (h : Folds select a a') : foldBinary select [] a = a' := by
  have hrun := h [] []
  rw [append_nil, append_nil] at hrun
  rw [hrun, foldBinary, reverse_reverse]

theorem Folds.keep (h : ∀ out right, joinOver? select out t right = none) :
    Folds select [t] [t] := by
  intro out rest
  cases rest with
  | nil => rfl
  | cons right rest => rw [singleton_append, foldBinary, h]; rfl

theorem Folds.token (h : t.isOperator = false) : Folds select [t] [t] :=
  .keep fun _ _ => joinOver?_eq_none h

theorem Folds.sign {text : String} (h : select text = none) :
    Folds select [.operator text] [.operator text] :=
  .keep fun _ _ => joinOver?_eq_none_of_select h

/-- An operator joins what is folded before it and the operand behind it. -/
theorem Folds.join {text : String} {build : Token → Token → Token} {left x : Token}
    (hbuild : select text = some build) (ha : Folds select a [left]) (hleft : left.isOperand = true)
    (hx : x.isOperand = true) :
    Folds select (a ++ [.operator text, x]) [build left x] := by
  intro out rest
  have hjoin : joinOver? select (left :: out) (.operator text) x = some (build left x :: out) :=
    joinOver?_operator hbuild hleft hx
  rw [append_assoc, ha]
  show foldBinary select (left :: out) (.operator text :: x :: rest) = _
  rw [foldBinary, hjoin]
  rfl

end

/-! ### Signs and passes -/

section

variable (sign : Arithmetic.Sign) (compares : Comparison.Sign)

theorem arithmeticOf_sign : arithmeticOf sign.op.isMultiplicative sign.text =
    some fun left right => .operation left sign.op right := by
  simp [arithmeticOf, sign.writes]

theorem arithmeticOf_other_sign : arithmeticOf (!sign.op.isMultiplicative) sign.text = none := by
  simp [arithmeticOf, sign.writes]

theorem comparisonOf_sign : comparisonOf compares.text =
    some fun left right => .comparison left compares.op right := by
  simp [comparisonOf, compares.writes]

/-- No sign writes both an arithmetic operation and a comparison. -/
theorem arithmeticOf_comparison (multiplicative : Bool) :
    arithmeticOf multiplicative compares.text = none := by
  cases h : arithmeticOf multiplicative compares.text with
  | none => rfl
  | some build =>
    obtain ⟨op, htext, -⟩ := arithmeticOf_eq_some h
    have hwrites := compares.writes
    rw [htext] at hwrites
    cases op <;> simp [Comparison.ofOperator?, Arithmetic.text] at hwrites

end

/-! ### Chains fold into their readings -/

/-- The three passes fold a piece into another one. -/
def FoldsTo (piece piece' : List Token) : Prop :=
  ∃ products sums, Folds (arithmeticOf true) piece products ∧
    Folds (arithmeticOf false) products sums ∧ Folds comparisonOf sums piece'

theorem FoldsTo.append {a a' b b' : List Token} (ha : FoldsTo a a') (hb : FoldsTo b b') :
    FoldsTo (a ++ b) (a' ++ b') := by
  obtain ⟨products, sums, htimes, hplus, hcompare⟩ := ha
  obtain ⟨products', sums', htimes', hplus', hcompare'⟩ := hb
  exact ⟨_, _, htimes.append htimes', hplus.append hplus', hcompare.append hcompare'⟩

theorem FoldsTo.nil : FoldsTo [] [] := ⟨[], [], .nil, .nil, .nil⟩

theorem FoldsTo.token (h : t.isOperator = false) : FoldsTo [t] [t] :=
  ⟨[t], [t], .token h, .token h, .token h⟩

theorem ReadsProduct.folds (h : ReadsProduct tokens t) :
    Folds (arithmeticOf true) tokens [t] := by
  induction h with
  | operand hx => exact .token (isOperator_of_isOperand hx)
  | times sign hsign hleft hx ih =>
    exact .join (hsign ▸ arithmeticOf_sign sign) ih hleft.isOperand hx

/-- The first pass leaves the products of a sum with their signs, and the second one joins them. -/
theorem ReadsSum.folds (h : ReadsSum tokens t) :
    ∃ products, Folds (arithmeticOf true) tokens products ∧
      Folds (arithmeticOf false) products [t] := by
  induction h with
  | product h => exact ⟨_, h.folds, .token (isOperator_of_isOperand h.isOperand)⟩
  | @plus tokens more left right sign hsign hleft hright ih =>
    obtain ⟨products, htimes, hplus⟩ := ih
    have hpass : arithmeticOf true sign.text = none := by
      simpa [hsign] using arithmeticOf_other_sign sign
    refine ⟨products ++ [.operator sign.text, right], ?_, ?_⟩
    · exact htimes.append ((Folds.sign hpass).append hright.folds)
    · exact .join (hsign ▸ arithmeticOf_sign sign) hplus hleft.isOperand hright.isOperand

theorem ReadsChain.foldsTo (h : ReadsChain tokens t) :
    FoldsTo tokens [t] := by
  cases h with
  | sum h =>
    obtain ⟨products, htimes, hplus⟩ := h.folds
    exact ⟨products, _, htimes, hplus, .token (isOperator_of_isOperand h.isOperand)⟩
  | @compare tokens more left right sign hleft hright =>
    obtain ⟨products, htimes, hplus⟩ := hleft.folds
    obtain ⟨products', htimes', hplus'⟩ := hright.folds
    have hpass (multiplicative : Bool) := Folds.sign (arithmeticOf_comparison sign multiplicative)
    refine ⟨products ++ .operator sign.text :: products', [left, .operator sign.text, right],
      htimes.append ((hpass true).append htimes'), hplus.append ((hpass false).append hplus'), ?_⟩
    have hfirst : Folds comparisonOf [left] [left] :=
      .token (isOperator_of_isOperand hleft.isOperand)
    exact hfirst.join (comparisonOf_sign sign) hleft.isOperand hright.isOperand

theorem Separator.isOperator_token (s : Separator) : s.token.isOperator = false := by
  cases s <;> rfl

/-- A row folds piece by piece. -/
theorem ChainRow.foldsTo_fill {f g : OperatorChain → List Token}
    (h : ∀ chain, FoldsTo (f chain) (g chain)) (row : ChainRow) :
    FoldsTo (row.fill f) (row.fill g) := by
  have hplace (chain : Option OperatorChain) : FoldsTo (place f chain) (place g chain) := by
    cases chain with
    | none => exact .nil
    | some chain => simpa [place] using h chain
  obtain ⟨first, rest⟩ := row
  refine (hplace first).append ?_
  induction rest with
  | nil => exact .nil
  | cons x rest ih =>
    exact ((FoldsTo.token x.1.isOperator_token).append (hplace x.2)).append ih

/-! ### CASE and aliases leave a row as it is -/

theorem foldCases_of_free {f : List Token → Except ParseError (List Token)}
    (h : ∀ t ∈ tokens, t.isKeyword .CASE = false) (n : Nat) :
    foldCases f n tokens = .ok tokens := by
  induction tokens generalizing n with
  | nil => cases n <;> rfl
  | cons t rest ih =>
    obtain ⟨ht, hrest⟩ := forall_mem_cons.mp h
    cases n with
    | zero => rfl
    | succ n => simp [foldCases, ht, ih hrest]

/-- A token that is not AS stays, unless it is a bare name behind a token that can have an alias. -/
theorem foldAliases_keep {out rest : List Token} (has : t.isKeyword .AS = false)
    (hfree : (∀ last ∈ out.head?, last.isAliasable = false) ∨ ∀ label, t ≠ .name none label) :
    foldAliases out (t :: rest) = foldAliases (t :: out) rest := by
  have hpush : pushAlias out t = t :: out := by
    unfold pushAlias
    split
    · rename_i label target before
      rcases hfree with hfree | hname
      · simp [hfree target rfl]
      · exact absurd rfl (hname label)
    · rfl
  cases rest with
  | nil => rw [foldAliases.eq_def, foldAliases.eq_def]; simp only [hpush]
  | cons next rest =>
    have hnone : aliasAfterAs? out t next = none := by
      unfold aliasAfterAs?
      split
      · cases has
      · rfl
    rw [foldAliases, hnone, hpush]

theorem isKeyword_of_isOperand (h : t.isOperand = true) (k : Keyword) : t.isKeyword k = false := by
  cases t <;> first | rfl | cases h

theorem ReadsChain.isKeyword (h : ReadsChain tokens t) (k : Keyword) :
    t.isKeyword k = false := by
  cases h with
  | sum h => exact isKeyword_of_isOperand h.isOperand k
  | compare => rfl

theorem Separator.isAliasable_token (s : Separator) : s.token.isAliasable = false := by
  cases s <;> rfl

theorem Separator.foldAliases_token (s : Separator) (out rest : List Token) :
    foldAliases out (s.token :: rest) = foldAliases (s.token :: out) rest := by
  cases s with
  | punctuation c => exact foldAliases_keep rfl (.inr fun _ h => by cases h)
  | keyword k hcase has =>
    exact foldAliases_keep (by simpa [Separator.token, isKeyword] using has)
      (.inr fun _ h => by cases h)

namespace ChainRow

/-- A chain stands first or behind a separator, so it is no alias. -/
theorem foldAliases_place {out : List Token} (hout : ∀ last ∈ out.head?, last.isAliasable = false)
    (chain : Option OperatorChain) (rest : List Token) :
    foldAliases out (place (fun chain => [chain.reading]) chain ++ rest) =
      foldAliases ((place (fun chain => [chain.reading]) chain).reverse ++ out) rest := by
  cases chain with
  | none => rfl
  | some chain => exact foldAliases_keep (chain.reads.isKeyword .AS) (.inl hout)

theorem foldAliases_tail (rest : List (Separator × Option OperatorChain)) (out : List Token) :
    foldAliases out (tail (fun chain => [chain.reading]) rest) =
      out.reverse ++ tail (fun chain => [chain.reading]) rest := by
  induction rest generalizing out with
  | nil => simp [tail, foldAliases]
  | cons x rest ih =>
    have hout : ∀ last ∈ (x.1.token :: out).head?, last.isAliasable = false := by
      rintro last ⟨⟩
      exact x.1.isAliasable_token
    show foldAliases out (x.1.token :: (place _ x.2 ++ tail _ rest)) = _
    rw [x.1.foldAliases_token, foldAliases_place hout, ih]
    simp [tail]

theorem foldAliases_readings (row : ChainRow) : foldAliases [] row.readings = row.readings := by
  have hout : ∀ last ∈ ([] : List Token).head?, last.isAliasable = false := by simp
  rw [readings, fill, foldAliases_place hout, foldAliases_tail]
  simp

end ChainRow

theorem OperandRun.isKeyword_tokens {run : OperandRun} (k : Keyword) :
    ∀ t ∈ run.tokens, t.isKeyword k = false := by
  have htail : ∀ t ∈ OperandRun.tail run.rest, t.isKeyword k = false := by
    intro t ht
    obtain ⟨x, -, hx⟩ := mem_flatMap.mp ht
    rcases mem_cons.mp hx with rfl | hx
    · rfl
    · exact mem_singleton.mp hx ▸ isKeyword_of_isOperand x.2.2 k
  exact forall_mem_cons.mpr ⟨isKeyword_of_isOperand run.first.2 k, htail⟩

theorem OperatorChain.isKeyword_tokens {chain : OperatorChain} (k : Keyword) :
    ∀ t ∈ chain.tokens, t.isKeyword k = false := by
  obtain ⟨left, compared⟩ := chain
  cases compared with
  | none => exact left.isKeyword_tokens k
  | some compared =>
    exact forall_mem_append.mpr ⟨left.isKeyword_tokens k,
      forall_mem_cons.mpr ⟨rfl, compared.2.isKeyword_tokens k⟩⟩

theorem ChainRow.caseFree (row : ChainRow) : ∀ t ∈ row.tokens, t.isKeyword .CASE = false := by
  have hplace (chain : Option OperatorChain) :
      ∀ t ∈ place OperatorChain.tokens chain, t.isKeyword .CASE = false := by
    intro t ht
    obtain ⟨chain, -, ht⟩ := mem_flatMap.mp ht
    exact chain.isKeyword_tokens .CASE t ht
  refine forall_mem_append.mpr ⟨hplace row.first, ?_⟩
  intro t ht
  obtain ⟨x, -, ht⟩ := mem_flatMap.mp ht
  rcases mem_cons.mp ht with rfl | ht
  · cases x.1 with
    | punctuation c => rfl
    | keyword k hcase has => simpa [Separator.token, isKeyword] using hcase
  · exact hplace x.2 t ht

/-! ### Rows of chains -/

theorem FoldsTo.foldLevel_eq {folded : List Token} (h : FoldsTo tokens folded)
    (halias : foldAliases [] folded = folded) : foldLevel tokens = folded := by
  obtain ⟨products, sums, htimes, hplus, hcompare⟩ := h
  simp only [foldLevel, htimes.foldBinary_eq, hplus.foldBinary_eq, hcompare.foldBinary_eq, halias]

theorem finish_of_foldsTo {folded : List Token} (h : FoldsTo tokens folded)
    (hcase : ∀ t ∈ tokens, t.isKeyword .CASE = false) (halias : foldAliases [] folded = folded) :
    finish tokens = .ok folded := by
  rw [finish_eq, foldCases_of_free hcase, Compiled.ok_bind, h.foldLevel_eq halias]
  rfl

/-- A chain has no other reading than the one it folds into. -/
theorem OperatorChain.eq_reading (chain : OperatorChain) (h : ReadsChain chain.tokens t) :
    t = chain.reading := by
  obtain ⟨products, sums, htimes, hplus, hcompare⟩ := h.foldsTo
  obtain ⟨products', sums', htimes', hplus', hcompare'⟩ := chain.reads.foldsTo
  cases htimes.foldBinary_eq.symm.trans htimes'.foldBinary_eq
  cases hplus.foldBinary_eq.symm.trans hplus'.foldBinary_eq
  exact singleton_inj.mp (hcompare.foldBinary_eq.symm.trans hcompare'.foldBinary_eq)

/-- **A level of chains folds into their readings.**  Every row of chains is finished, and the
result is the row with each chain replaced by one token, which is the one that the grammar reads it
as. -/
theorem finish_row (row : ChainRow) :
    finish row.tokens = .ok row.readings ∧
      ∀ chain ∈ row.chains, ∀ t, ReadsChain chain.tokens t ↔ t = chain.reading := by
  refine ⟨finish_of_foldsTo ?_ row.caseFree row.foldAliases_readings, ?_⟩
  · exact row.foldsTo_fill fun chain => chain.reads.foldsTo
  · exact fun chain _ t => ⟨chain.eq_reading, fun h => h ▸ chain.reads⟩

example (a b c d e : String) :
    finish [.name none a, .operator "-", .name none b, .operator "-", .name none c, .operator "*",
        .name none d, .operator "<=", .name none e] =
      .ok [.comparison (.operation (.operation (.name none a) .sub (.name none b)) .sub
        (.operation (.name none c) .mul (.name none d))) .le (.name none e)] := by
  rfl

end Token

end DocSql
