import DocSql.Proofs.ConditionCells
import DocSql.Proofs.MisplacedOperators
import DocSql.Proofs.Precedence

/-! # What is accepted as a condition

The tokens of a condition are laid out as a row of cells, and the row is reduced.  Laying out can be
undone: each cell was spelled by some tokens, and the cells of a sentence are spelled by a sentence.
With what is known of rows this says which token sequences are accepted: those whose operators can be
moved such that they become a sentence.  Those whose operators are in place, inside parentheses too,
are the sentences among them.
-/
namespace DocSql
open Compiled List

namespace Grammar

variable {r : Reading} {P : List Token → Prop}
variable {rest inner tokens : List Token} {afterIn : Bool} {cells : List Cell} {token : Token}
  {t : Term} {c : Condition} {row : Resolved} {e : Disjunction}

/-! ### Spelling -/

/-- The tokens that put a cell into the row.  The inside of a parenthesis that is a condition has the
property `P`. -/
inductive Spells (r : Reading) (P : List Token → Prop) : Cell → List Token → Prop
  | term {token : Token} {t : Term} (htoken : token.isTerm = true) (h : r.resolve token = .ok t) :
    Spells r P (.operand (.term t)) [token]
  | condition {inner : List Token} {c : Condition} (hinner : P inner)
    (h : r.condition inner = .ok c) : Spells r P (.operand (.condition c true)) [.paren inner]
  | members {inner : List Token} {m : Members} (h : members r inner = .ok m) :
    Spells r P (.operand (.members m)) [.paren inner]
  | and : Spells r P (.operator .and) [.keyword .AND]
  | or : Spells r P (.operator .or) [.keyword .OR]
  | not : Spells r P (.operator .not) [.keyword .NOT]
  | isNull (negated : Bool) :
    Spells r P (.operator (.isNull negated)) (.keyword .IS :: (notToken negated ++ [.literal .null]))
  | isBool (value negated : Bool) : Spells r P (.operator (.isBool value negated))
      (.keyword .IS :: (notToken negated ++ [.literal (.bool value)]))
  | between {lower upper : Token} {low high : Term} (negated : Bool) (hlow : r.resolve lower = .ok low)
    (hhigh : r.resolve upper = .ok high) :
    Spells r P (.operator (.between low high negated))
      (notToken negated ++ [.keyword .BETWEEN, lower, .keyword .AND, upper])
  | like (ignoreCase negated : Bool) : Spells r P (.operator (.like ignoreCase negated))
      (notToken negated ++ [.keyword (if ignoreCase then .ILIKE else .LIKE)])
  | member (negated : Bool) :
    Spells r P (.operator (.member negated)) (notToken negated ++ [.keyword .IN])

/-- A cell can be spelled with other parentheses for the same conditions. -/
theorem Spells.exists_spells {Q : List Token → Prop} {cell : Cell} {spelled : List Token}
    (h : Spells r P cell spelled)
    (hinner : ∀ inner c, P inner → r.condition inner = .ok c →
      ∃ inner', Q inner' ∧ r.condition inner' = .ok c) : ∃ spelled', Spells r Q cell spelled' := by
  cases h with
  | condition hP hc =>
    obtain ⟨inner', hQ, hc'⟩ := hinner _ _ hP hc
    exact ⟨_, .condition hQ hc'⟩
  | _ =>
    apply Exists.intro
    constructor <;> assumption

/-- The first cell of a row is spelled by the first tokens, and the others by the tokens behind. -/
def Starts (r : Reading) (P : List Token → Prop) (tokens : List Token) (cells : List Cell) : Prop :=
  ∃ cell spelled rest cells' afterIn, Spells r P cell spelled ∧ tokens = spelled ++ rest ∧
    r.cells afterIn rest = .ok cells' ∧ cells = cell :: cells'

theorem starts {cell : Cell} {spelled : List Token} (hcell : Spells r P cell spelled)
    (h : (do return cell :: (← r.cells afterIn rest)) = .ok cells) :
    Starts r P (spelled ++ rest) cells := by
  obtain ⟨cells', hcells', rfl⟩ := bind₁_eq_ok.mp h
  exact ⟨cell, spelled, rest, cells', afterIn, hcell, rfl, hcells', rfl⟩

theorem starts_between (negated : Bool) {lower upper : Token} (h : (do
      let low ← r.resolve lower
      let high ← r.resolve upper
      return Cell.operator (.between low high negated) :: (← r.cells false rest)) = .ok cells) :
    Starts r P (notToken negated ++ .keyword .BETWEEN :: lower :: .keyword .AND :: upper :: rest)
      cells := by
  obtain ⟨low, hlow, h⟩ := bind_eq_ok.mp h
  obtain ⟨high, hhigh, h⟩ := bind_eq_ok.mp h
  have hstarts : Starts r P _ cells := starts (.between negated hlow hhigh) h
  rwa [append_assoc] at hstarts

theorem starts_keyword {k : Keyword} (h : r.cells afterIn (.keyword k :: rest) = .ok cells) :
    Starts r P (.keyword k :: rest) cells := by
  rw [Reading.cells.eq_def] at h
  simp only at h
  split at h
  · exact starts .and h
  · exact starts .or h
  · exact starts (.member false) h
  · exact starts (.like false false) h
  · exact starts (.like true false) h
  · exact starts_between false h
  · cases h
  · exact starts (.member true) h
  · exact starts (.like false true) h
  · exact starts (.like true true) h
  · exact starts_between true h
  · cases h
  · exact starts .not h
  · exact starts (.isNull false) h
  · exact starts (.isBool _ false) h
  · exact starts (.isNull true) h
  · exact starts (.isBool _ true) h
  · cases h
  · cases h

theorem starts_paren (hinner : ∀ c, r.condition inner = .ok c → P inner)
    (h : r.cells afterIn (.paren inner :: rest) = .ok cells) :
    Starts r P (.paren inner :: rest) cells := by
  cases afterIn with
  | true =>
    rw [cells_inside] at h
    obtain ⟨m, hm, h⟩ := bind_eq_ok.mp h
    exact starts (.members hm) h
  | false =>
    rw [Reading.cells_paren, Reading.parenOperand.eq_def, if_neg Bool.false_ne_true] at h
    obtain ⟨o, ho, h⟩ := bind_eq_ok.mp h
    split at ho
    · cases ho
    · obtain ⟨c, hc, rfl⟩ := bind₁_eq_ok.mp ho
      exact starts (.condition (hinner c hc) hc) h

theorem starts_of_cells
    (hinner : ∀ inner c, token = .paren inner → r.condition inner = .ok c → P inner)
    (h : r.cells afterIn (token :: rest) = .ok cells) : Starts r P (token :: rest) cells := by
  cases htoken : token.isTerm with
  | true =>
    rw [cells_term r afterIn ⟨token, htoken⟩] at h
    obtain ⟨t, ht, h⟩ := bind_eq_ok.mp h
    exact starts (.term htoken ht) h
  | false =>
    cases token with
    | keyword k => exact starts_keyword h
    | paren inner => exact starts_paren (fun c => hinner inner c rfl) h
    | punctuation p =>
      cases h
    | _ => cases htoken

/-- Tokens that spell the cells of a row one after the other. -/
inductive Spelling (r : Reading) (P : List Token → Prop) : List Cell → List Token → Prop
  | nil : Spelling r P [] []
  | cons {cell : Cell} {spelled : List Token} {cells : List Cell} {rest : List Token}
    (hcell : Spells r P cell spelled) (hrest : Spelling r P cells rest) :
    Spelling r P (cell :: cells) (spelled ++ rest)

/-- The tokens of a row spell it. -/
theorem spelling_of_cells
    (hinner : ∀ inner c, .paren inner ∈ tokens → r.condition inner = .ok c → P inner)
    (h : r.cells afterIn tokens = .ok cells) : Spelling r P cells tokens := by
  induction cells generalizing afterIn tokens with
  | nil =>
    cases tokens with
    | nil => exact .nil
    | cons token rest =>
      obtain ⟨cell, spelled, rest', cells', afterIn', -, -, -, hcells⟩ : Starts r P _ [] :=
        starts_of_cells (fun inner c htoken => hinner inner c (by simp [htoken])) h
      cases hcells
  | cons cell cells ih =>
    cases tokens with
    | nil =>
      cases h
    | cons token rest =>
      obtain ⟨cell', spelled, rest', cells', afterIn', hcell, htokens, hrest, hcells⟩ :
          Starts r P _ (cell :: cells) :=
        starts_of_cells (fun inner c htoken => hinner inner c (by simp [htoken])) h
      cases hcells
      rw [htokens] at hinner ⊢
      exact .cons hcell (ih (fun inner c hmem => hinner inner c (mem_append_right _ hmem)) hrest)

/-- Cells that can be spelled can be spelled in a row. -/
theorem exists_spelling (h : ∀ cell ∈ cells, ∃ spelled, Spells r P cell spelled) :
    ∃ tokens, Spelling r P cells tokens := by
  induction cells with
  | nil => exact ⟨[], .nil⟩
  | cons cell cells ih =>
    obtain ⟨⟨spelled, hcell⟩, hcells⟩ := forall_mem_cons.mp h
    obtain ⟨rest, hrest⟩ := ih hcells
    exact ⟨spelled ++ rest, .cons hcell hrest⟩

theorem Spelling.exists_spells (h : Spelling r P cells tokens) :
    ∀ cell ∈ cells, ∃ spelled, Spells r P cell spelled := by
  induction h with
  | nil => simp
  | cons hcell _ ih => exact forall_mem_cons.mpr ⟨⟨_, hcell⟩, ih⟩

theorem Spelling.of_append {cells' : List Cell} (h : Spelling r P (cells ++ cells') tokens) :
    ∃ front rest, tokens = front ++ rest ∧ Spelling r P cells front ∧ Spelling r P cells' rest := by
  induction cells generalizing tokens with
  | nil => exact ⟨[], tokens, rfl, .nil, h⟩
  | cons cell cells ih =>
    cases h with
    | cons hcell hrest =>
      obtain ⟨front, rest, rfl, hfront, hrest⟩ := ih hrest
      exact ⟨_, rest, (append_assoc ..).symm, .cons hcell hfront, hrest⟩

/-! ### The sentence that is spelled -/

/-- The tokens are a sentence of the grammar. -/
def IsSentence (tokens : List Token) : Prop := ∃ e : Disjunction, e.tokens = tokens

/-- A call stands for a value. -/
theorem toCondition_resolveCall {fn : Function} {args : List (List Token)}
    (h : r.resolveCall fn args = .ok t) : (Operand.term t).toCondition ≠ .ok c := by
  intro hc
  unfold Reading.resolveCall at h
  split at h
  · cases h
    cases hc
  · obtain ⟨arg, -, rfl⟩ := bind₁_eq_ok.mp h
    cases hc
  · obtain ⟨arg, -, rfl⟩ := bind₁_eq_ok.mp h
    cases hc
  · cases h
  · obtain ⟨unit, -, h⟩ := bind_eq_ok.mp h
    obtain ⟨unit', -, arg, -, rfl⟩ := bind₂_eq_ok.mp h
    cases hc
  · cases h

/-- A token that stands for a condition is a comparison or a name. -/
theorem atom_of_term (htoken : token.isTerm = true) (ht : r.resolve token = .ok t)
    (hc : (Operand.term t).toCondition = .ok c) :
    ∃ a : Atom, a.tokens = [token] ∧ a.leaf r = .ok (.operand ⟨.term t, c, hc⟩) := by
  cases token with
  | name qualifier column =>
    refine ⟨.name qualifier column, rfl, ?_⟩
    rw [Reading.resolve] at ht
    rcases Reading.name_eq_ok ht with ⟨_, rfl, -⟩ | ⟨rfl, -⟩
    · cases hc
      simp [Atom.leaf, ht]
    · cases hc
      simp [Atom.leaf, ht]
  | comparison left op right =>
    obtain ⟨lhs, hlhs, rhs, hrhs, rfl⟩ := bind₂_eq_ok.mp ht
    cases hc
    exact ⟨.comparison left op right, rfl, by simp [Atom.leaf, hlhs, hrhs]⟩
  | call fn args =>
    rw [Reading.resolve] at ht
    split at ht
    · cases ht
    · exact absurd hc (toCondition_resolveCall ht)
  | placeholder index =>
    obtain ⟨value, -, rfl⟩ := bind₁_eq_ok.mp ht
    cases hc
  | operation left op right =>
    obtain ⟨lhs, -, rhs, -, rfl⟩ := bind₂_eq_ok.mp ht
    cases hc
  | caseOf operand arms =>
    rw [Reading.resolve.eq_def] at ht
    simp only at ht
    split at ht
    · obtain ⟨arms', -, ht⟩ := bind_eq_ok.mp ht
      cases ht
      cases hc
    · obtain ⟨operand', -, ht⟩ := bind_eq_ok.mp ht
      obtain ⟨arms', -, ht⟩ := bind_eq_ok.mp ht
      cases ht
      cases hc
  | keyword | punctuation | paren => cases htoken
  | literal l =>
    cases ht
    cases hc
  | wildcard | operator | aliased =>
    cases ht

theorem isBound_of_resolve (h : r.resolve token = .ok t) : token.isBound = true := by
  cases token with
  | keyword | punctuation =>
    cases h
  | _ => rfl

/-- The cells of a test are spelled by it. -/
theorem test_of_spelling {op : Connective} {args : List Operand} (tight : 4 ≤ op.precedence)
    (applies : ∀ left right, op.apply (.operand (.term t) :: left) (args.map .operand ++ right) =
      .ok (.ofCondition c :: left, right))
    (h : Spelling r P (.operator op :: args.map .operand) tokens) :
    ∃ asked : Test, asked.tokens = tokens ∧
      asked.leaf r t = .ok (.test t op args c tight applies) := by
  have hop : op.isTest = true := Connective.isTest_iff.mpr tight
  cases h with
  | cons hcell hrest =>
    cases hcell with
    | and | or | not => cases hop
    | isNull negated =>
      obtain ⟨rfl, -⟩ := args_of_unary applies hop rfl
      obtain rfl := eq_of_applies applies rfl
      cases hrest
      exact ⟨.isNull negated, (append_nil _).symm, rfl⟩
    | isBool value negated =>
      obtain ⟨rfl, -⟩ := args_of_unary applies hop rfl
      obtain rfl := eq_of_applies applies rfl
      cases hrest
      exact ⟨.isBool value negated, (append_nil _).symm, rfl⟩
    | between negated hlow hhigh =>
      obtain ⟨rfl, -⟩ := args_of_unary applies hop rfl
      obtain rfl := eq_of_applies applies rfl
      cases hrest
      refine ⟨.between ⟨_, isBound_of_resolve hlow⟩ ⟨_, isBound_of_resolve hhigh⟩ negated,
        (append_nil _).symm, ?_⟩
      simp [Test.leaf, hlow, hhigh]
    | like ignoreCase negated =>
      obtain ⟨o, rfl, hc⟩ := args_of_binary applies rfl
      cases hrest with
      | cons ho hnil =>
        cases hnil
        cases ho with
        | term htoken hresolve =>
          obtain rfl := eq_of_applies applies rfl
          refine ⟨.like ⟨_, htoken⟩ ignoreCase negated, by simp [Test.tokens], ?_⟩
          simp [Test.leaf, hresolve]
        | condition | members => cases hc
    | member negated =>
      obtain ⟨o, rfl, hc⟩ := args_of_binary applies rfl
      cases hrest with
      | cons ho hnil =>
        cases hnil
        cases ho with
        | term htoken hresolve =>
          obtain rfl := eq_of_applies applies rfl
          refine ⟨.inTerm ⟨_, htoken⟩ negated, by simp [Test.tokens], ?_⟩
          simp [Test.leaf, hresolve]
        | @members inner m hm =>
          obtain rfl := eq_of_applies applies rfl
          refine ⟨.inside inner negated, by simp [Test.tokens], ?_⟩
          simp [Test.leaf, hm]
        | condition => cases hc

theorem atom_of_spelling {l : Leaf} (h : Spelling r IsSentence (l.cellsFrom 9) tokens) :
    ∃ a : Atom, a.tokens = tokens ∧ a.leaf r = .ok l := by
  cases l with
  | operand o =>
    obtain ⟨o, c, hc⟩ := o
    cases h with
    | cons hcell hnil =>
      cases hnil
      cases hcell with
      | term htoken ht => exact atom_of_term htoken ht hc
      | condition hinner hcondition =>
        obtain ⟨e, rfl⟩ := hinner
        cases hc
        exact ⟨.paren e, rfl, by simp [Atom.leaf, hcondition]⟩
      | members => cases hc
  | test t op args c tight applies =>
    rw [cellsFrom_test] at h
    cases h with
    | cons hcell hrest =>
      cases hcell with
      | term htoken ht =>
        obtain ⟨asked, rfl, hleaf⟩ := test_of_spelling tight applies hrest
        exact ⟨.test ⟨_, htoken⟩ asked, rfl, by simp only [Atom.leaf, ht, ok_bind, hleaf]⟩

theorem negation_of_spelling {f : Factor} (h : Spelling r IsSentence (f.cellsFrom 9) tokens) :
    ∃ n : Negation, n.tokens = tokens ∧ n.factor r = .ok f := by
  obtain ⟨k, l⟩ := f
  induction k generalizing tokens with
  | zero =>
    obtain ⟨a, rfl, ha⟩ := atom_of_spelling h
    exact ⟨.atom a, rfl, by simp [Negation.factor, ha]⟩
  | succ k ih =>
    cases h with
    | cons hcell hrest =>
      cases hcell with
      | not =>
        obtain ⟨n, rfl, hn⟩ := ih hrest
        exact ⟨.not n, rfl, by simp [Negation.factor, hn]⟩

theorem conjunction_of_spelling {fs : Chain Factor}
    (h : Spelling r IsSentence (fs.cells .and (Factor.cellsFrom 9)) tokens) :
    ∃ c : Conjunction, c.tokens = tokens ∧ c.factors r = .ok fs := by
  obtain ⟨f, fs⟩ := fs
  induction fs generalizing f tokens with
  | nil =>
    rw [Chain.cells, flatMap_nil, append_nil] at h
    obtain ⟨n, rfl, hn⟩ := negation_of_spelling h
    exact ⟨.one n, rfl, by simp [Conjunction.factors, hn]⟩
  | cons f' fs ih =>
    obtain ⟨front, rest, rfl, hfront, hrest⟩ := h.of_append
    obtain ⟨n, rfl, hn⟩ := negation_of_spelling hfront
    cases hrest with
    | cons hcell hrest =>
      cases hcell with
      | and =>
        obtain ⟨c, rfl, hc⟩ := ih f' hrest
        exact ⟨.and n c, rfl, by simp [Conjunction.factors, hn, hc, Chain.toList]⟩

/-- The cells of a sentence are spelled by a sentence. -/
theorem sentence_of_spelling (h : Spelling r IsSentence row.cells tokens) :
    ∃ e : Disjunction, e.tokens = tokens ∧ e.row r = .ok row := by
  obtain ⟨fs, row⟩ := row
  induction row generalizing fs tokens with
  | nil =>
    rw [Resolved.cells, Resolved.cellsFrom, Chain.cells, flatMap_nil, append_nil] at h
    obtain ⟨c, rfl, hc⟩ := conjunction_of_spelling h
    exact ⟨.one c, rfl, by simp [Disjunction.row, hc]⟩
  | cons fs' row ih =>
    obtain ⟨front, rest, rfl, hfront, hrest⟩ := h.of_append
    obtain ⟨c, rfl, hc⟩ := conjunction_of_spelling hfront
    cases hrest with
    | cons hcell hrest =>
      cases hcell with
      | or =>
        obtain ⟨e, rfl, he⟩ := ih fs' hrest
        exact ⟨.or c e, rfl, by simp [Disjunction.row, hc, he, Chain.toList]⟩

theorem read_eq_ok_iff : e.read r = .ok c ↔ r.condition e.tokens = .ok c := by
  rw [← toOption_eq_some, ← toOption_eq_some, e.condition_settled, Disjunction.read,
    toOption_bind, toOption_bind, e.settled_read]

theorem condition_of_row (he : e.row r = .ok row) :
    r.condition e.tokens = .ok c ↔ row.condition = .ok c := by
  rw [← toOption_eq_some, ← toOption_eq_some, e.condition_eq, he]
  rfl

theorem cells_of_row (he : e.row r = .ok row) : r.cells false e.tokens = .ok row.cells := by
  have h := e.cells_append r []
  rw [append_nil, he, ok_bind] at h
  simpa [Reading.cells] using h

/-! ### Which sequences are accepted -/

/-- Moves put no cell into the row. -/
theorem mem_of_moves {cells' : List Cell} (h : Moves cells cells') :
    ∀ cell ∈ cells', cell ∈ cells := by
  induction h with
  | refl => exact fun _ hcell => hcell
  | tail _ hmove ih =>
    intro cell hcell
    refine ih cell ?_
    cases hmove with
    | swap | pass =>
      simp only [mem_append, mem_cons] at hcell ⊢
      tauto

/-- Every accepted sequence becomes a sentence by moves. -/
theorem exists_sentence (h : r.condition tokens = .ok c) :
    ∃ (e : Disjunction) (row : Resolved) (cells : List Cell), r.cells false tokens = .ok cells ∧
      e.row r = .ok row ∧ Moves cells row.cells ∧ row.condition = .ok c := by
  -- a parenthesis is smaller than what it stands in, and is replaced by the sentence it becomes
  induction hsize : sizeOf tokens using Nat.strongRecOn generalizing tokens c with
  | ind size ih =>
    subst hsize
    obtain ⟨cells, hcells, hreduce⟩ := bind_eq_ok.mp h
    obtain ⟨row, hmoves, hrow⟩ := (reduce_iff_moves cells c).mp hreduce
    have hspelled : Spelling r (fun inner => sizeOf inner < sizeOf tokens) cells tokens := by
      refine spelling_of_cells (fun inner _ hmem _ => ?_) hcells
      have hlt := sizeOf_lt_of_mem hmem
      simp only [Token.paren.sizeOf_spec] at hlt
      omega
    have hspells : ∀ cell ∈ row.cells, ∃ spelled, Spells r IsSentence cell spelled := by
      intro cell hcell
      obtain ⟨spelled, hspells⟩ := hspelled.exists_spells cell (mem_of_moves hmoves cell hcell)
      refine hspells.exists_spells fun inner d hlt hinner => ?_
      obtain ⟨e, row', -, -, he, -, hd⟩ := ih _ hlt hinner rfl
      exact ⟨e.tokens, ⟨e, rfl⟩, (condition_of_row he).mpr hd⟩
    obtain ⟨tokens', hspelling⟩ := exists_spelling hspells
    obtain ⟨e, -, he⟩ := sentence_of_spelling hspelling
    exact ⟨e, row, cells, hcells, he, hmoves, hrow⟩

/-- The operators of a sequence are in place, and so are those of the conditions in parentheses. -/
inductive Placed (r : Reading) : List Token → Prop
  | intro {tokens : List Token} {cells : List Cell} (hcells : r.cells false tokens = .ok cells)
    (hplace : InPlace cells)
    (hinner : ∀ inner c, .paren inner ∈ tokens → r.condition inner = .ok c → Placed r inner) :
    Placed r tokens

/-- An accepted sequence whose operators are in place is a sentence. -/
theorem sentence_of_placed (hplaced : Placed r tokens) (h : r.condition tokens = .ok c) :
    IsSentence tokens := by
  induction hplaced generalizing c with
  | @intro tokens cells hcells hplace _ ih =>
    rw [Reading.condition, hcells, ok_bind] at h
    obtain ⟨row, rfl⟩ := row_of_inPlace hplace h
    have hspelling : Spelling r IsSentence row.cells tokens :=
      spelling_of_cells (fun inner c hmem hc => ih inner c hmem hc hc) hcells
    obtain ⟨e, he, -⟩ := sentence_of_spelling hspelling
    exact ⟨e, he⟩

/-! ### Sentences are in place -/

/-- The inside of a parenthesis stands for a value, or for what a term is looked for in. -/
def Valued (r : Reading) (inner : List Token) : Prop :=
  (∃ t, r.resolveOne inner = .ok t) ∨ ∃ m, members r inner = .ok m

theorem valued_of_resolve (h : r.resolve (.paren inner) = .ok t) : Valued r inner := by
  rw [Reading.resolve] at h
  split at h
  · cases h
  · exact .inl ⟨t, h⟩

/-- A token that stands for a term is an operand wherever it does not stand behind IN. -/
theorem cells_of_resolve (ht : r.resolve token = .ok t)
    (h : r.cells false (token :: rest) = .ok cells) :
    ∃ o cells', cells = .operand o :: cells' ∧ r.cells false rest = .ok cells' := by
  cases htoken : token.isTerm with
  | true =>
    rw [cells_term r false ⟨token, htoken⟩] at h
    obtain ⟨t', -, cells', hcells', rfl⟩ := bind₂_eq_ok.mp h
    exact ⟨_, cells', rfl, hcells'⟩
  | false =>
    have hbound := isBound_of_resolve ht
    cases token with
    | paren inner =>
      rw [Reading.cells_paren] at h
      obtain ⟨o, -, cells', hcells', rfl⟩ := bind₂_eq_ok.mp h
      exact ⟨o, cells', rfl, hcells'⟩
    | keyword | punctuation => cases hbound
    | _ => cases htoken

/-- A list of several values is no condition. -/
theorem eq_singleton_of_resolveList {ts : List Term} (hts : r.resolveList inner = .ok ts)
    (h : r.cells false inner = .ok cells) :
    ∃ token t, inner = [token] ∧ r.resolve token = .ok t := by
  cases inner with
  | nil => cases hts
  | cons token rest =>
    cases rest with
    | nil =>
      rw [Reading.resolveList] at hts
      split at hts
      · cases hts
      · obtain ⟨t, ht, -⟩ := bind_eq_ok.mp hts
        exact ⟨token, t, rfl, ht⟩
    | cons next rest =>
      rw [Reading.resolveList] at hts
      split at hts
      · cases hts
      · split at hts
        · rename_i hnext
          obtain ⟨t, ht, -⟩ := bind_eq_ok.mp hts
          obtain ⟨o, cells', -, hrest⟩ := cells_of_resolve ht h
          cases next with
          | punctuation p =>
            cases hrest
          | _ => cases hnext
        · cases hts

theorem eq_singleton_of_valued (hvalued : Valued r inner) (h : r.condition inner = .ok c) :
    ∃ token t, inner = [token] ∧ r.resolve token = .ok t := by
  obtain ⟨cells, hcells, hreduce⟩ := bind_eq_ok.mp h
  rcases hvalued with ⟨t, ht⟩ | ⟨m, hm⟩
  · unfold Reading.resolveOne at ht
    split at ht
    · cases ht
    · exact ⟨_, t, rfl, ht⟩
    · cases ht
  · unfold members at hm
    split at hm
    · rename_i hselect
      unfold Token.startsSelect at hselect
      split at hselect
      · cases hcells
      · cases hselect
    · obtain ⟨ts, hts, -⟩ := bind_eq_ok.mp hm
      cases inner with
      | nil =>
        cases hcells
        cases hreduce
      | cons token rest =>
        have hlist : r.resolveList (token :: rest) = .ok ts := by
          rw [resolveList_eq]
          exact hts
        exact eq_singleton_of_resolveList hlist hcells

/-- Where a value can be read as a condition as well, it has no operators. -/
theorem placed_of_valued (hvalued : Valued r inner) (h : r.condition inner = .ok c) :
    Placed r inner := by
  induction hsize : sizeOf inner using Nat.strongRecOn generalizing inner c with
  | ind size ih =>
    subst hsize
    obtain ⟨token, t, rfl, ht⟩ := eq_singleton_of_valued hvalued h
    obtain ⟨cells, hcells, -⟩ := bind_eq_ok.mp h
    obtain ⟨o, cells', rfl, hnil⟩ := cells_of_resolve ht hcells
    cases hnil
    refine .intro hcells (isChain_singleton _) fun inner d hmem hd => ?_
    obtain rfl := mem_singleton.mp hmem
    refine ih (sizeOf inner) ?_ (valued_of_resolve ht) hd rfl
    simp only [cons.sizeOf_spec, Token.paren.sizeOf_spec]
    omega

section

theorem paren_not_mem_notToken (negated : Bool) : .paren inner ∉ notToken negated := by
  cases negated <;> simp [notToken]

theorem paren_ne_term (t : TermToken) : .paren inner ≠ t.val := by
  intro h
  have ht := t.property
  rw [← h] at ht
  cases ht

theorem valued_of_mem_test {asked : Test} {l : Leaf} (h : asked.leaf r t = .ok l)
    (hmem : .paren inner ∈ asked.tokens) : Valued r inner := by
  cases asked with
  | isNull negated | isBool value negated =>
    simp [Test.tokens, paren_not_mem_notToken] at hmem
  | like pattern ignoreCase negated | inTerm value negated =>
    simp [Test.tokens, paren_not_mem_notToken, paren_ne_term] at hmem
  | between low high negated =>
    obtain ⟨lower, hlow, upper, hhigh, -⟩ := bind₂_eq_ok.mp h
    simp only [Test.tokens, mem_append, paren_not_mem_notToken, mem_cons, reduceCtorEq,
      not_mem_nil, false_or, or_false] at hmem
    rcases hmem with hmem | hmem
    · exact valued_of_resolve (hmem ▸ hlow)
    · exact valued_of_resolve (hmem ▸ hhigh)
  | inside list negated =>
    obtain ⟨m, hm, -⟩ := bind_eq_ok.mp h
    simp only [Test.tokens, mem_append, paren_not_mem_notToken, mem_cons, reduceCtorEq,
      Token.paren.injEq, not_mem_nil, false_or, or_false] at hmem
    exact .inr ⟨m, hmem ▸ hm⟩

theorem paren_mem_atom {a : Atom} {l : Leaf} (h : a.leaf r = .ok l) (hmem : .paren inner ∈ a.tokens) :
    IsSentence inner ∨ Valued r inner := by
  cases a with
  | comparison | name => simp [Atom.tokens] at hmem
  | paren e =>
    simp only [Atom.tokens, mem_singleton, Token.paren.injEq] at hmem
    exact .inl ⟨e, hmem.symm⟩
  | test operand asked =>
    obtain ⟨t, -, h⟩ := bind_eq_ok.mp h
    rcases mem_cons.mp hmem with hmem | hmem
    · exact absurd hmem (paren_ne_term operand)
    · exact .inr (valued_of_mem_test h hmem)

theorem paren_mem_negation : ∀ {n : Negation} {f : Factor}, n.factor r = .ok f →
    .paren inner ∈ n.tokens → IsSentence inner ∨ Valued r inner
  | .atom a, _, h, hmem => by
    obtain ⟨l, hl, -⟩ := bind_eq_ok.mp h
    exact paren_mem_atom hl hmem
  | .not n, _, h, hmem => by
    obtain ⟨f, hf, -⟩ := bind_eq_ok.mp h
    rw [Negation.tokens, mem_cons] at hmem
    rcases hmem with hmem | hmem
    · cases hmem
    · exact paren_mem_negation hf hmem

theorem paren_mem_conjunction : ∀ {c : Conjunction} {fs : Chain Factor}, c.factors r = .ok fs →
    .paren inner ∈ c.tokens → IsSentence inner ∨ Valued r inner
  | .one n, _, h, hmem => by
    obtain ⟨f, hf, -⟩ := bind_eq_ok.mp h
    exact paren_mem_negation hf hmem
  | .and n rest, _, h, hmem => by
    obtain ⟨f, hf, fs, hfs, -⟩ := bind₂_eq_ok.mp h
    rw [Conjunction.tokens, mem_append, mem_cons] at hmem
    rcases hmem with hmem | hmem | hmem
    · exact paren_mem_negation hf hmem
    · cases hmem
    · exact paren_mem_conjunction hfs hmem

/-- A parenthesis of a sentence holds a sentence, or stands for a value. -/
theorem paren_mem_disjunction : ∀ {e : Disjunction} {row : Resolved}, e.row r = .ok row →
    .paren inner ∈ e.tokens → IsSentence inner ∨ Valued r inner
  | .one c, _, h, hmem => by
    obtain ⟨fs, hfs, -⟩ := bind_eq_ok.mp h
    exact paren_mem_conjunction hfs hmem
  | .or c rest, _, h, hmem => by
    obtain ⟨fs, hfs, row, hrow, -⟩ := bind₂_eq_ok.mp h
    rw [Disjunction.tokens, mem_append, mem_cons] at hmem
    rcases hmem with hmem | hmem | hmem
    · exact paren_mem_conjunction hfs hmem
    · cases hmem
    · exact paren_mem_disjunction hrow hmem

end

/-- The operators of an accepted sentence are in place. -/
theorem placed_of_sentence (h : r.condition tokens = .ok c) (hsentence : IsSentence tokens) :
    Placed r tokens := by
  induction hsize : sizeOf tokens using Nat.strongRecOn generalizing tokens c with
  | ind size ih =>
    obtain ⟨e, rfl⟩ := hsentence
    rw [← toOption_eq_some, e.condition_eq, toOption_eq_some] at h
    obtain ⟨row, he, -⟩ := bind_eq_ok.mp h
    refine .intro (cells_of_row he) (inPlace_cells row) fun inner d hmem hd => ?_
    rcases paren_mem_disjunction he hmem with hinner | hinner
    · refine ih (sizeOf inner) ?_ hd hinner rfl
      have hlt := sizeOf_lt_of_mem hmem
      simp only [Token.paren.sizeOf_spec] at hlt
      omega
    · exact placed_of_valued hinner hd

/-- **What is accepted as a condition.**  A sequence of tokens is accepted exactly if its operators
can be moved such that it becomes a sentence of the grammar, and it is taken for that sentence.  It is
a sentence itself exactly if no operators stand side by side in it that do not so in sentences. -/
theorem accepted_iff_moved (r : Reading) (tokens : List Token) (c : Condition) :
    (r.condition tokens = .ok c ↔ ∃ (e : Disjunction) (cells cells' : List Cell),
      r.cells false tokens = .ok cells ∧ r.cells false e.tokens = .ok cells' ∧ Moves cells cells' ∧
        e.read r = .ok c) ∧
    (r.condition tokens = .ok c → (IsSentence tokens ↔ Placed r tokens)) := by
  refine ⟨⟨fun h => ?_, ?_⟩, fun h => ⟨placed_of_sentence h, fun hplaced => ?_⟩⟩
  · obtain ⟨e, row, cells, hcells, he, hmoves, hrow⟩ := exists_sentence h
    have hread : e.read r = .ok c := read_eq_ok_iff.mpr ((condition_of_row he).mpr hrow)
    exact ⟨e, cells, row.cells, hcells, cells_of_row he, hmoves, hread⟩
  · rintro ⟨e, cells, cells', hcells, hcells', hmoves, hread⟩
    rw [read_eq_ok_iff, Reading.condition, hcells', Compiled.ok_bind] at hread
    rw [Reading.condition, hcells, Compiled.ok_bind]
    exact (reduce_of_moves hmoves).mpr hread
  · exact sentence_of_placed hplaced h

namespace Sample

/-- A reading with one table. -/
def reading : Reading where
  scope := { params := [], tables := [("t", "t")], left := some "t" }
  aliases := false
  subselect _ := undecodable .expectedExpression

/-- A column compared with a number, as a token. -/
def equals (column : String) (n : Int) : Token :=
  .comparison (.name none column) .eq (.literal (.int n))

/-- A column compared with a number. -/
def compares (op : Comparison) (column : String) (n : Int) : Condition :=
  .compare (.column { table := "t", column, path := column }) op (.const (.int n))

/-- The text `a = 1 AND OR b = 2 c = 3`. -/
def misplaced : List Token :=
  [equals "a" 1, .keyword .AND, .keyword .OR, equals "b" 2, equals "c" 3]

/-- The text `NOT a = 1 AND (b = 2)`. -/
def placed : List Token := [.keyword .NOT, equals "a" 1, .keyword .AND, .paren [equals "b" 2]]

theorem placed_placed : Placed reading placed := by
  have hinner : Placed reading [equals "b" 2] := .intro rfl (by decide) (by simp [equals])
  refine .intro rfl (by decide) fun inner _ hmem _ => ?_
  obtain rfl : inner = [equals "b" 2] := by simpa [placed, equals] using hmem
  exact hinner

/-- Operators side by side are accepted, although no sentence has them so. -/
theorem misplaced_accepted :
    (reading.condition misplaced =
        .ok (.any [.all [compares .eq "a" 1, compares .eq "b" 2], compares .eq "c" 3]) ∧
      ¬ IsSentence misplaced ∧
      ∃ (e : Disjunction) (cells cells' : List Cell), reading.cells false misplaced = .ok cells ∧
        reading.cells false e.tokens = .ok cells' ∧ Moves cells cells' ∧
        e.read reading =
          .ok (.any [.all [compares .eq "a" 1, compares .eq "b" 2], compares .eq "c" 3])) ∧
    (reading.condition placed = .ok (.all [compares .ne "a" 1, compares .eq "b" 2]) ∧
      Placed reading placed ∧ IsSentence placed) := by
  obtain ⟨hmoved, hsentence⟩ := accepted_iff_moved reading misplaced
    (.any [.all [compares .eq "a" 1, compares .eq "b" 2], compares .eq "c" 3])
  have hplaced := (accepted_iff_moved reading placed
    (.all [compares .ne "a" 1, compares .eq "b" 2])).2 rfl
  refine ⟨⟨rfl, fun h => ?_, hmoved.mp rfl⟩, rfl, placed_placed, hplaced.mpr placed_placed⟩
  obtain ⟨hcells, hplace, -⟩ := (hsentence rfl).mp h
  cases hcells
  revert hplace
  decide

end Sample

end Grammar

end DocSql
