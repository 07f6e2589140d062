import DocSql.Proofs.OperatorChains
import DocSql.Proofs.SequenceRuns
import DocSql.Proofs.TextRoundTrip

/-! # The forms of an INSERT

An INSERT gives a table, columns and rows.  Before a row stands VALUES, or a comma if another row is
before it, and the parenthesis of the columns may touch the name of the table, which makes a call of
the two.  All these forms compile to the same insertion, which depends on the table, the columns and
the entries of the rows only (`InsertParts.Spelled.compile_eq`).

Whatever tokens are accepted, rows and values are taken in order, and each row has a value for each
column (`Insert.ReadFrom`).  A document is made of a row column by column, so nothing is lost exactly
if entries of the same column write the same (`Insert.holdsRow_iff`): a column that is named twice
keeps the last of its values only.
-/
namespace DocSql
open Compiled List

variable {lexemes : List Lexeme}

/-- A step that gives a result for each member of a list gives all of them. -/
theorem Compiled.mapM_eq_ok {ε α β : Type} {f : α → Except ε β} {g : α → β} {xs : List α}
    (h : ∀ x ∈ xs, f x = .ok (g x)) : xs.mapM f = .ok (xs.map g) := by
  induction xs with
  | nil => rfl
  | cons x xs ih =>
    obtain ⟨hx, hxs⟩ := forall_mem_cons.mp h
    rw [mapM_cons, hx, ok_bind, ih hxs]
    rfl

namespace Token

variable {tokens : List Token} {previous : Option Token}

/-! ### Levels on which nothing folds -/

/-- A token that starts nothing to be folded. -/
structure IsLone (t : Token) : Prop where
  operator : t.isOperator = false
  no_case : t.isKeyword .CASE = false
  no_as : t.isKeyword .AS = false

/-- A token that no pass joins with its neighbours: it is no alias of the token before it either. -/
structure Stays (previous : Option Token) (t : Token) : Prop extends IsLone t where
  label : (∀ last ∈ previous, last.isAliasable = false) ∨ ∀ label, t ≠ .name none label

theorem foldAliases_of_stays {out : List Token} (h : Chain Stays out.head? tokens) :
    foldAliases out tokens = out.reverse ++ tokens := by
  induction tokens generalizing out with
  | nil => rw [foldAliases, append_nil]
  | cons t rest ih =>
    rw [foldAliases_keep h.1.no_as h.1.label, @ih (t :: out) h.2, reverse_cons, append_assoc]
    rfl

theorem foldsTo_of_stays (h : Chain Stays previous tokens) : FoldsTo tokens tokens := by
  induction tokens generalizing previous with
  | nil => exact .nil
  | cons t rest ih => exact (FoldsTo.token h.1.operator).append (ih h.2)

theorem forall_of_chain {R : Option Token → Token → Prop} {P : Token → Prop}
    (himp : ∀ previous t, R previous t → P t) (h : Chain R previous tokens) :
    ∀ t ∈ tokens, P t := by
  induction tokens generalizing previous with
  | nil => exact forall_mem_nil _
  | cons t rest ih => exact forall_mem_cons.mpr ⟨himp _ _ h.1, ih h.2⟩

/-- A level on which nothing folds is finished. -/
theorem finish_of_stays (h : Chain Stays none tokens) : finish tokens = .ok tokens :=
  finish_of_foldsTo (foldsTo_of_stays h) (forall_of_chain (fun _ _ hstays => hstays.no_case) h)
    (foldAliases_of_stays h)

/-! ### Lists with commas -/

/-- A token that stands between commas by itself. -/
structure IsItem (t : Token) : Prop extends IsLone t where
  comma : t.isPunctuation ',' = false

/-- Tokens with commas between them. -/
def commaList (items : List Token) : List Token := items.intersperse (.punctuation ',')

section

variable {items : List Token} {x : Token}

theorem commaList_cons (x y : Token) (items : List Token) :
    commaList (x :: y :: items) = x :: .punctuation ',' :: commaList (y :: items) := rfl

theorem IsItem.stays (h : x.IsItem) (hprevious : ∀ last ∈ previous, last.isAliasable = false) :
    Stays previous x :=
  ⟨h.toIsLone, .inl hprevious⟩

theorem stays_commaList (h : ∀ x ∈ items, x.IsItem)
    (hprevious : ∀ last ∈ previous, last.isAliasable = false) :
    Chain Stays previous (commaList items) := by
  induction items generalizing previous with
  | nil => trivial
  | cons x items ih =>
    obtain ⟨hx, hitems⟩ := forall_mem_cons.mp h
    cases items with
    | nil => exact ⟨hx.stays hprevious, trivial⟩
    | cons y items =>
      exact ⟨hx.stays hprevious, ⟨⟨rfl, rfl, rfl⟩, .inr nofun⟩,
        ih hitems fun last hlast => by cases hlast; rfl⟩

theorem finish_commaList (h : ∀ x ∈ items, x.IsItem) :
    finish (commaList items) = .ok (commaList items) :=
  finish_of_stays (stays_commaList h fun last hlast => by cases hlast)

theorem splitCommas_commaList (h : ∀ x ∈ items, x.IsItem) :
    splitCommas (commaList items) = items.map fun x => [x] := by
  have hpieces : ∀ {items : List Token}, (∀ x ∈ items, x.IsItem) → items ≠ [] →
      splitCommas.pieces (commaList items) = items.map fun x => [x] := by
    intro items h hne
    induction items with
    | nil => exact absurd rfl hne
    | cons x items ih =>
      obtain ⟨hx, hitems⟩ := forall_mem_cons.mp h
      have hfree : ∀ t ∈ [x], t.isPunctuation ',' = false := by simpa using hx.comma
      cases items with
      | nil => exact pieces_of_free hfree
      | cons y items =>
        exact (pieces_append_comma hfree _).trans
          (congrArg _ (ih hitems (cons_ne_nil _ _)))
  cases items with
  | nil => rfl
  | cons x items =>
    have hne : commaList (x :: items) ≠ [] := by cases items <;> exact cons_ne_nil _ _
    rw [splitCommas, if_neg (mt List.isEmpty_iff.mp hne), hpieces h (List.cons_ne_nil _ _)]

end

/-! ### Lexemes of lists -/

/-- Lexemes with commas between them, each of which writes a member of a list. -/
inductive Listed {α : Type} (Writes : LexemeKind → α → Prop) : List Lexeme → List α → Prop
  | nil : Listed Writes [] []
  | one {l : Lexeme} {x : α} (hx : Writes l.kind x) : Listed Writes [l] [x]
  | more {l comma : Lexeme} {x y : α} {lexemes : List Lexeme} {xs : List α} (hx : Writes l.kind x)
    (hcomma : comma.kind = .comma) (hmore : Listed Writes lexemes (y :: xs)) :
    Listed Writes (l :: comma :: lexemes) (x :: y :: xs)

/-- Lexemes that become one token each in front of a comma or a closing parenthesis. -/
def WritesTokens {α : Type} (Writes : LexemeKind → α → Prop) (token : α → Token) : Prop :=
  ∀ {l next : Lexeme} {x : α}, Writes l.kind x → next.kind = .comma ∨ next.kind = .rparen →
    ∀ (stack : List Frame) (before : List Token) (rest : List Lexeme),
      assembleOne ⟨stack, before⟩ l (next :: rest) = .ok (⟨stack, token x :: before⟩, 0)

section

variable {l : Lexeme} (stack : List Frame) (before : List Token) (rest : List Lexeme)

theorem assembleOne_keyword {k : Keyword} (h : l.kind = .keyword k) :
    assembleOne ⟨stack, before⟩ l rest = .ok (⟨stack, .keyword k :: before⟩, 0) :=
  assembleOne_of_isWhole (by rw [h]; rfl) (by unfold ofLexeme; rw [h]) rest

theorem assembleOne_comma (h : l.kind = .comma) :
    assembleOne ⟨stack, before⟩ l rest = .ok (⟨stack, .punctuation ',' :: before⟩, 0) :=
  assembleOne_of_isWhole (by rw [h]; rfl) (by unfold ofLexeme; rw [h]) rest

theorem assembleOne_lparen (h : l.kind = .lparen) :
    assembleOne ⟨stack, before⟩ l rest = .ok (⟨⟨none, before⟩ :: stack, []⟩, 0) := by
  rw [assembleOne, h]

end

section

variable {α : Type} {Writes : LexemeKind → α → Prop} {token : α → Token} {xs : List α}
  {right : Lexeme}

theorem assemble_next {state state' : Assembly} {l : Lexeme} {rest : List Lexeme}
    (h : assembleOne state l rest = .ok (state', 0)) :
    assemble state (l :: rest) = assemble state' rest := assemble_cons h

variable (hwrites : WritesTokens Writes token) (hitems : ∀ x, (token x).IsItem)
  (h : Listed Writes lexemes xs) (hright : right.kind = .rparen) (stack : List Frame)
  (before : List Token) (rest : List Lexeme)
include hwrites h hright

theorem Listed.assemble_eq :
    assemble ⟨stack, before⟩ (lexemes ++ right :: rest) =
      assemble ⟨stack, (commaList (xs.map token)).reverse ++ before⟩ (right :: rest) := by
  induction h generalizing before with
  | nil => rfl
  | one hx => exact assemble_next (hwrites hx (.inr hright) stack before rest)
  | @more l comma x y lexemes xs hx hcomma hmore ih =>
    rw [cons_append, cons_append, assemble_next (hwrites hx (.inl hcomma) ..),
      assemble_next (assembleOne_comma _ _ _ hcomma), ih]
    simp only [map_cons, commaList_cons, reverse_cons, append_assoc, cons_append, nil_append]

include hitems

/-- Lexemes in parentheses are a token that holds the tokens of the list. -/
theorem Listed.assemble_paren :
    assemble ⟨⟨none, before⟩ :: stack, []⟩ (lexemes ++ right :: rest) =
      assemble ⟨stack, .paren (commaList (xs.map token)) :: before⟩ rest := by
  have hfinish : finish (commaList (xs.map token)) = .ok (commaList (xs.map token)) :=
    finish_commaList (forall_mem_map.mpr fun x _ => hitems x)
  rw [h.assemble_eq hwrites hright, append_nil]
  refine assemble_next ?_
  simp only [assembleOne, hright, closeFrame, reverse_reverse, hfinish]
  rfl

/-- Behind a name that touches them, they are the arguments of a call. -/
theorem Listed.assemble_call (fn : String) :
    assemble ⟨⟨some fn, before⟩ :: stack, []⟩ (lexemes ++ right :: rest) =
      assemble ⟨stack, .call fn (xs.map fun x => [token x]) :: before⟩ rest := by
  have hone (x : α) : finish [token x] = .ok [token x] :=
    finish_commaList (forall_mem_singleton.mpr (hitems x))
  have hargs : (splitCommas (commaList (xs.map token))).mapM finish =
      .ok (xs.map fun x => [token x]) := by
    rw [splitCommas_commaList (forall_mem_map.mpr fun x _ => hitems x), map_map, mapM_map]
    exact mapM_eq_ok fun x _ => hone x
  rw [h.assemble_eq hwrites hright, append_nil]
  refine assemble_next ?_
  simp only [assembleOne, hright, closeFrame, reverse_reverse, hargs]
  rfl

end

end Token

/-! ### What an INSERT says -/

/-- A name, quoted or not. -/
def Named (kind : LexemeKind) (text : String) : Prop := kind = .name text ∨ kind = .quoted text

theorem writesTokens_named : Token.WritesTokens Named (.name none) := by
  intro l next x hx hnext stack before rest
  have hname : Token.readName x (next :: rest) = .ok (.name none x, 0) :=
    Token.readName_of_head (by rcases hnext with h | h <;> simp [h])
  rcases hx with hx | hx
  · unfold Token.assembleOne
    rw [hx]
    simp only
    split
    · rename_i heq
      obtain ⟨rfl, -⟩ := cons.inj heq
      rcases hnext with h | h <;> cases h
    · rw [hname]
      rfl
  · rw [Token.assembleOne, hx]
    simp only [hname]
    rfl

/-- An entry of a row of VALUES. -/
inductive RowEntry where
  | constant (l : Literal)
  | placeholder (index : Nat)
  | default

namespace RowEntry

/-- A lexeme writes an entry. -/
inductive WrittenBy : LexemeKind → RowEntry → Prop
  | string (text : String) : WrittenBy (.string text) (.constant (.string text))
  | number {text : String} {l : Literal} (h : Literal.ofNumber? text = some l) :
    WrittenBy (.number text) (.constant l)
  | null : WrittenBy .null (.constant .null)
  | bool (b : Bool) : WrittenBy (.bool b) (.constant (.bool b))
  | placeholder (index : Nat) : WrittenBy (.placeholder index) (.placeholder index)
  | default : WrittenBy (.keyword .DEFAULT) .default

/-- The token of an entry. -/
def token : RowEntry → Token
  | .constant l => .literal l
  | .placeholder index => .placeholder index
  | .default => .keyword .DEFAULT

/-- What an entry puts into a row. -/
def value (s : Scope) : RowEntry → Compiled InsertValue
  | .constant l => .ok (.value l.toValue)
  | .placeholder index => do
    let v ← s.param index
    return .value v
  | .default => .ok .default

theorem isItem_token (e : RowEntry) : e.token.IsItem := by
  cases e <;> exact ⟨⟨rfl, rfl, rfl⟩, rfl⟩

theorem writesTokens : Token.WritesTokens WrittenBy token := by
  rintro ⟨kind, spaced, start⟩ next x hx - stack before rest
  refine Token.assembleOne_of_isWhole ?_ ?_ _
  · cases hx <;> rfl
  · cases hx with
    | number h => simp only [Token.ofLexeme, h]; rfl
    | _ => rfl

theorem readValue_token (r : Reading) (e : RowEntry) :
    Insert.readValue r [e.token] = e.value r.scope := by
  cases e with
  | constant l => rfl
  | placeholder index =>
    simp only [token, value, Insert.readValue, Reading.resolve]
    cases r.scope.param index <;> rfl
  | default => rfl

end RowEntry

/-- What an INSERT says, however it is written. -/
structure InsertParts where
  table : String
  columns : List String
  rows : List (List RowEntry)

/-- Rows in parentheses, each behind VALUES, or behind a comma where another row is before it. -/
inductive RowsSpelled : Bool → List Lexeme → List (List RowEntry) → Prop
  | nil (afterRow : Bool) : RowsSpelled afterRow [] []
  | cons {afterRow : Bool} {mark left right : Lexeme} {inner lexemes : List Lexeme}
    {row : List RowEntry} {rows : List (List RowEntry)}
    (hmark : mark.kind = .keyword .VALUES ∨ afterRow = true ∧ mark.kind = .comma)
    (hleft : left.kind = .lparen) (hrow : Token.Listed RowEntry.WrittenBy inner row)
    (hright : right.kind = .rparen) (hrows : RowsSpelled true lexemes rows) :
    RowsSpelled afterRow (mark :: left :: (inner ++ right :: lexemes)) (row :: rows)

/-- The lexemes of an INSERT.  Nothing is asked about the blanks between them. -/
inductive InsertParts.Spelled : List Lexeme → InsertParts → Prop
  | intro {insert into table left right : Lexeme} {inner lexemes : List Lexeme} {p : InsertParts}
    (hinsert : insert.kind = .keyword .INSERT) (hinto : into.kind = .keyword .INTO)
    (htable : Named table.kind p.table) (hleft : left.kind = .lparen)
    (hcolumns : Token.Listed Named inner p.columns) (hright : right.kind = .rparen)
    (hrows : RowsSpelled false lexemes p.rows) :
    Spelled (insert :: into :: table :: left :: (inner ++ right :: lexemes)) p

/-- The values of a row, one for each column. -/
def RowEntry.values (s : Scope) (width : Nat) (row : List RowEntry) : Compiled (List InsertValue) := do
  let values ← row.mapM (RowEntry.value s)
  if values.length = width then return values else undecodable (.rowWidth values.length width)

/-- The insertion that an INSERT asks for. -/
def InsertParts.compiled (p : InsertParts) (s : Scope) : Compiled Insert := do
  let rows ← p.rows.mapM (RowEntry.values s p.columns.length)
  if rows.isEmpty then unsupported .insertWithoutValues
  else return { collection := p.table, columns := p.columns, rows }

/-! ### Every form compiles to what it says -/

/-- The tokens of rows. -/
inductive RowTokens : Bool → List Token → List (List RowEntry) → Prop
  | nil (afterRow : Bool) : RowTokens afterRow [] []
  | cons {afterRow : Bool} {mark : Token} {tokens : List Token} {row : List RowEntry}
    {rows : List (List RowEntry)}
    (hmark : mark = .keyword .VALUES ∨ afterRow = true ∧ mark = .punctuation ',')
    (hrows : RowTokens true tokens rows) :
    RowTokens afterRow (mark :: .paren (Token.commaList (row.map RowEntry.token)) :: tokens)
      (row :: rows)

section

variable {afterRow : Bool} {tokens : List Token} {rows : List (List RowEntry)}

theorem RowTokens.stays (h : RowTokens afterRow tokens rows) (previous : Option Token) :
    Token.Chain Token.Stays previous tokens := by
  induction h generalizing previous with
  | nil => trivial
  | cons hmark hrows ih =>
    refine ⟨?_, ⟨⟨rfl, rfl, rfl⟩, .inr nofun⟩, ih _⟩
    rcases hmark with rfl | ⟨-, rfl⟩ <;>
      exact ⟨⟨rfl, rfl, rfl⟩, .inr nofun⟩

theorem readRow_commaList (r : Reading) (width : Nat) (row : List RowEntry) :
    Insert.readRow r width (Token.commaList (row.map RowEntry.token)) =
      RowEntry.values r.scope width row := by
  have hitems : ∀ t ∈ row.map RowEntry.token, t.IsItem :=
    forall_mem_map.mpr fun e _ => e.isItem_token
  rw [Insert.readRow, Token.splitCommas_commaList hitems, map_map, mapM_map, RowEntry.values]
  simp only [Function.comp_def, RowEntry.readValue_token]

theorem RowTokens.readRows_eq (h : RowTokens afterRow tokens rows) (r : Reading) (width : Nat) :
    Insert.readRows r width afterRow tokens =
      (do let rows ← rows.mapM (RowEntry.values r.scope width); return (rows, [])) := by
  induction h with
  | nil => rfl
  | @cons afterRow mark tokens row rows hmark hrows ih =>
    have hannounces : Insert.announcesRow afterRow mark = true := by
      rcases hmark with rfl | ⟨rfl, rfl⟩
      · exact Bool.or_eq_true_iff.mpr (.inl rfl)
      · rfl
    rw [Insert.readRows, if_pos hannounces, readRow_commaList, ih, mapM_cons]
    cases RowEntry.values r.scope width row with
    | error fault => rfl
    | ok values => cases rows.mapM (RowEntry.values r.scope width) <;> rfl

/-- The lexemes of rows become the tokens of rows. -/
theorem RowsSpelled.assemble_eq (h : RowsSpelled afterRow lexemes rows) (before : List Token) :
    ∃ tokens, RowTokens afterRow tokens rows ∧
      Token.assemble ⟨[], before⟩ lexemes = .ok (before.reverse ++ tokens) := by
  induction h generalizing before with
  | nil afterRow => exact ⟨[], .nil afterRow, by rw [Token.assemble, append_nil]; rfl⟩
  | @cons afterRow mark left right inner lexemes row rows hmark hleft hrow hright hrows ih =>
    obtain ⟨t, ht, hone⟩ : ∃ t, (t = .keyword .VALUES ∨ afterRow = true ∧ t = .punctuation ',') ∧
        ∀ rest, Token.assembleOne ⟨[], before⟩ mark rest = .ok (⟨[], t :: before⟩, 0) := by
      rcases hmark with hmark | ⟨hafter, hmark⟩
      · exact ⟨_, .inl rfl, fun rest => Token.assembleOne_keyword _ _ rest hmark⟩
      · exact ⟨_, .inr ⟨hafter, rfl⟩, fun rest => Token.assembleOne_comma _ _ rest hmark⟩
    obtain ⟨tokens, htokens, hassemble⟩ :=
      ih (.paren (Token.commaList (row.map RowEntry.token)) :: t :: before)
    refine ⟨_, .cons ht htokens, ?_⟩
    rw [Token.assemble_next (hone _), Token.assemble_next (Token.assembleOne_lparen _ _ _ hleft),
      hrow.assemble_paren RowEntry.writesTokens RowEntry.isItem_token hright, hassemble]
    simp

end

namespace InsertParts

/-- The tokens of a table with its columns, in one of two forms. -/
def IsTarget (p : InsertParts) (target : List Token) : Prop :=
  target = [.call p.table (p.columns.map fun column => [.name none column])] ∨
    target = [.name none p.table, .paren (Token.commaList (p.columns.map (.name none)))]

variable {p : InsertParts}

theorem isItem_name (text : String) : (Token.name none text).IsItem := ⟨⟨rfl, rfl, rfl⟩, rfl⟩

theorem IsTarget.readTarget_eq {target : List Token} (h : p.IsTarget target) (rest : List Token) :
    Insert.readTarget (target ++ rest) = .ok (p.table, p.columns, rest) := by
  have hcolumns : (p.columns.map fun column => [Token.name none column]).mapM Insert.readColumn =
      .ok p.columns := by
    rw [mapM_map]
    exact (mapM_eq_ok fun column _ => rfl).trans (congrArg _ (map_id _))
  rcases h with rfl | rfl
  · simp only [singleton_append, Insert.readTarget, hcolumns]
    rfl
  · have hnames : ∀ t ∈ p.columns.map (Token.name none), t.IsItem :=
      forall_mem_map.mpr fun column _ => isItem_name column
    have hsplit : Token.splitCommas (Token.commaList (p.columns.map (Token.name none))) =
        p.columns.map fun column => [Token.name none column] := by
      rw [Token.splitCommas_commaList hnames, map_map]
      rfl
    simp only [cons_append, nil_append, Insert.readTarget, hsplit, hcolumns]
    rfl

theorem IsTarget.stays {target : List Token} (h : p.IsTarget target) {k : Keyword} :
    Token.Chain Token.Stays (some (.keyword k)) target := by
  rcases h with rfl | rfl
  · exact ⟨⟨⟨rfl, rfl, rfl⟩, .inr nofun⟩, trivial⟩
  · exact ⟨⟨⟨rfl, rfl, rfl⟩, .inl fun last hlast => by cases hlast; rfl⟩,
      ⟨⟨rfl, rfl, rfl⟩, .inr nofun⟩, trivial⟩

/-- A table and its columns become a call where the parenthesis touches a name that is not quoted, and
two tokens everywhere else. -/
theorem assemble_target {table left right : Lexeme} {inner : List Lexeme}
    (htable : Named table.kind p.table) (hleft : left.kind = .lparen)
    (hcolumns : Token.Listed Named inner p.columns) (hright : right.kind = .rparen)
    (before : List Token) (rest : List Lexeme) :
    ∃ target, p.IsTarget target ∧
      Token.assemble ⟨[], before⟩ (table :: left :: (inner ++ right :: rest)) =
        Token.assemble ⟨[], target.reverse ++ before⟩ rest := by
  have hparen : Token.assemble ⟨[], .name none p.table :: before⟩ (left :: (inner ++ right :: rest)) =
      Token.assemble ⟨[], .paren (Token.commaList (p.columns.map (.name none))) ::
        .name none p.table :: before⟩ rest := by
    rw [Token.assemble_next (Token.assembleOne_lparen _ _ _ hleft),
      hcolumns.assemble_paren writesTokens_named isItem_name hright]
  have hname : Token.readName p.table (left :: (inner ++ right :: rest)) =
      .ok (.name none p.table, 0) :=
    Token.readName_of_head (by simp [hleft])
  rcases htable with htable | htable
  · obtain ⟨kind, spaced, start⟩ := left
    obtain rfl : kind = .lparen := hleft
    cases spaced with
    | true =>
      refine ⟨_, .inr rfl, (Token.assemble_next ?_).trans hparen⟩
      simp only [Token.assembleOne, htable, hname]
      rfl
    | false =>
      refine ⟨_, .inl rfl, ?_⟩
      have hcall : Token.assembleOne ⟨[], before⟩ table
          (⟨.lparen, false, start⟩ :: (inner ++ right :: rest)) =
            .ok (⟨[⟨some p.table, before⟩], []⟩, 1) := by
        simp only [Token.assembleOne, htable]
      rw [Token.assemble_cons hcall, drop_one, tail_cons,
        hcolumns.assemble_call writesTokens_named isItem_name hright]
      rfl
  · refine ⟨_, .inr rfl, (Token.assemble_next ?_).trans hparen⟩
    simp only [Token.assembleOne, htable, hname]
    rfl

/-- The lexemes of an INSERT group to tokens that compile to what it says. -/
theorem Spelled.compile_eq (h : Spelled lexemes p) : ∃ tokens, Token.group lexemes = .ok tokens ∧
      ∀ r : Reading, Insert.compile r tokens = p.compiled r.scope := by
  obtain ⟨hinsert, hinto, htable, hleft, hcolumns, hright, hrows⟩ := h
  rename_i insert into table left right inner lexemes
  obtain ⟨target, htarget, hassemble⟩ := assemble_target htable hleft hcolumns hright
    [.keyword .INTO, .keyword .INSERT] lexemes
  obtain ⟨tokens, htokens, hrest⟩ :=
    hrows.assemble_eq (target.reverse ++ [.keyword .INTO, .keyword .INSERT])
  have hall : Token.assemble ⟨[], []⟩
      (insert :: into :: table :: left :: (inner ++ right :: lexemes)) =
      .ok (.keyword .INSERT :: .keyword .INTO :: (target ++ tokens)) := by
    rw [Token.assemble_next (Token.assembleOne_keyword _ _ _ hinsert),
      Token.assemble_next (Token.assembleOne_keyword _ _ _ hinto), hassemble, hrest]
    simp
  have hfinish : Token.finish (.keyword .INSERT :: .keyword .INTO :: (target ++ tokens)) =
      .ok (.keyword .INSERT :: .keyword .INTO :: (target ++ tokens)) := by
    refine Token.finish_of_stays ⟨⟨⟨rfl, rfl, rfl⟩, .inr nofun⟩,
      ⟨⟨rfl, rfl, rfl⟩, .inr nofun⟩, Token.chain_append.mpr
        ⟨htarget.stays, htokens.stays _⟩⟩
  refine ⟨_, by rw [Token.group, hall]; exact hfinish, fun r => ?_⟩
  simp only [Insert.compile, htarget.readTarget_eq, htokens.readRows_eq, compiled, ok_bind]
  cases p.rows.mapM (RowEntry.values r.scope p.columns.length) with
  | error fault => rfl
  | ok rows =>
    simp only [ok_bind, Compiled.pure_def]
    split <;> rfl

end InsertParts

/-! ### Rows of accepted tokens -/

namespace Insert

variable {rows : List (List InsertValue)} {entries : List (String × InsertValue)} {name : String}

/-- A table with its columns in order, and the tokens behind them. -/
inductive TargetRead : List Token → String → List String → List Token → Prop
  | call {collection : String} {args : List (List Token)} {columns : List String} {rest : List Token}
    (hcolumns : Forall₂ (fun arg column => readColumn arg = .ok column) args columns) :
    TargetRead (.call collection args :: rest) collection columns rest
  | paren {collection : String} {inner : List Token} {columns : List String} {rest : List Token}
    (hcolumns : Forall₂ (fun piece column => readColumn piece = .ok column)
      (Token.splitCommas inner) columns) :
    TargetRead (.name none collection :: .paren inner :: rest) collection columns rest

/-- Rows in order, each with its values in order and one for each column, and the tokens behind
them. -/
inductive RowsRead (r : Reading) (width : Nat) :
    Bool → List Token → List (List InsertValue) → List Token → Prop
  | done (afterRow : Bool) (rest : List Token) : RowsRead r width afterRow rest [] rest
  | row {afterRow : Bool} {mark : Token} {inner tokens rest : List Token} {row : List InsertValue}
    {rows : List (List InsertValue)} (hmark : announcesRow afterRow mark = true)
    (hvalues : Forall₂ (fun piece value => readValue r piece = .ok value)
      (Token.splitCommas inner) row)
    (hwidth : row.length = width) (hrows : RowsRead r width true tokens rows rest) :
    RowsRead r width afterRow (mark :: .paren inner :: tokens) (row :: rows) rest

/-- The tokens of an INSERT, and what is read from them. -/
def ReadFrom (r : Reading) (tokens : List Token) (i : Insert) : Prop :=
  ∃ target rows rest, tokens = .keyword .INSERT :: .keyword .INTO :: target ∧
    TargetRead target i.collection i.columns rows ∧
    RowsRead r i.columns.length false rows i.rows rest ∧ i.rows ≠ [] ∧
    ∀ t ∈ rest.head?, t = .keyword .RETURNING

variable {r : Reading} {tokens rest : List Token} {i : Insert}

theorem targetRead_of_readTarget {collection : String} {columns : List String}
    (h : readTarget tokens = .ok (collection, columns, rest)) :
    TargetRead tokens collection columns rest := by
  unfold readTarget at h
  split at h
  · obtain ⟨columns', hcolumns, h⟩ := bind_eq_ok.mp h
    cases h
    exact .call (forall₂_of_mapM hcolumns)
  · obtain ⟨columns', hcolumns, h⟩ := bind_eq_ok.mp h
    cases h
    exact .paren (forall₂_of_mapM hcolumns)
  · cases h
  · cases h

theorem rowsRead_of_readRows {width : Nat} {afterRow : Bool}
    (h : readRows r width afterRow tokens = .ok (rows, rest)) :
    RowsRead r width afterRow tokens rows rest := by
  induction afterRow, tokens using readRows.induct generalizing rows rest with
  | case1 afterRow t values tokens hmark ih =>
    rw [readRows, if_pos hmark] at h
    obtain ⟨row, hrow, ⟨rows', rest'⟩, hrows, h⟩ := bind₂_eq_ok.mp h
    cases h
    obtain ⟨row', hvalues, hrow⟩ := bind_eq_ok.mp hrow
    split at hrow
    · cases hrow
      exact .row hmark (forall₂_of_mapM hvalues) ‹_› (ih hrows)
    · cases hrow
  | case2 afterRow t values tokens hmark =>
    rw [readRows, if_neg hmark] at h
    cases h
    exact .done _ _
  | case3 afterRow t tokens hparen hmark =>
    rw [readRows, if_pos hmark] at h
    · cases h
    · exact hparen
  | case4 afterRow t tokens hparen hmark =>
    rw [readRows, if_neg hmark] at h
    · cases h
      exact .done _ _
    · exact hparen
  | case5 =>
    cases h
    exact .done _ _

theorem returning_of_checkEnd (h : checkEnd rest = .ok ()) :
    ∀ t ∈ rest.head?, t = .keyword .RETURNING := by
  cases rest with
  | nil => simp
  | cons t rest =>
    rw [checkEnd] at h
    split at h
    · cases t <;> simp_all [Token.isKeyword]
    · cases h

theorem readFrom_of_compile (h : compile r tokens = .ok i) : ReadFrom r tokens i := by
  unfold compile at h
  split at h
  · obtain ⟨⟨collection, columns, rowTokens⟩, htarget, h⟩ := bind_eq_ok.mp h
    obtain ⟨⟨rows, rest⟩, hrows, h⟩ := bind_eq_ok.mp h
    simp only at h
    split at h
    · cases h
    · rename_i hne
      obtain ⟨⟨⟩, hend, h⟩ := bind_eq_ok.mp h
      cases h
      refine ⟨_, rowTokens, rest, rfl, targetRead_of_readTarget htarget, rowsRead_of_readRows hrows,
        mt isEmpty_iff.mpr hne, returning_of_checkEnd hend⟩
  · cases h

theorem RowsRead.width {width : Nat} {afterRow : Bool}
    (h : RowsRead r width afterRow tokens rows rest) : ∀ row ∈ rows, row.length = width := by
  induction h with
  | done => exact forall_mem_nil _
  | row _ _ hwidth _ ih => exact forall_mem_cons.mpr ⟨hwidth, ih⟩

/-! ### Values and their columns -/

/-- A document holds what each entry of a row writes under the column of the entry. -/
def HoldsRow (columns fields : List String) (n : Int) (row : List InsertValue) (document : Fields) :
    Prop :=
  ∀ e ∈ columns.zip row, ∀ v, written fields n e.1 e.2 = some v → document.get? e.1 = some v

/-- Entries of the same column write the same. -/
def Consistent (columns fields : List String) (n : Int) (row : List InsertValue) : Prop :=
  ∀ e ∈ columns.zip row, ∀ e' ∈ columns.zip row, e.1 = e'.1 →
    ∀ v v', written fields n e.1 e.2 = some v → written fields n e'.1 e'.2 = some v' → v = v'

variable {columns fields : List String} {n : Int} {row : List InsertValue}

/-- A column keeps what the last entry that writes it has written. -/
theorem get?_foldl_writeColumn (d : Draft) :
    (entries.foldl (writeColumn fields n) d).document.get? name =
      (entries.reverse.findSome? fun e => if e.1 = name then written fields n e.1 e.2 else none).or
        (d.document.get? name) := by
  induction entries generalizing d with
  | nil => rfl
  | cons e entries ih =>
    rw [foldl_cons, ih, get?_writeColumn, reverse_cons, findSome?_append, findSome?_singleton,
      Option.or_assoc]
    split <;> rfl

/-- A column of a row is filled from its entries alone. -/
theorem get?_draftRow_column (h : name ∈ columns) :
    (draftRow columns fields n row).document.get? name =
      ((columns.zip row).foldl (writeColumn fields n) {}).document.get? name := by
  rw [draftRow, get?_numberAll, if_neg]
  simp [h]

/-- The document of a row keeps all that the row writes exactly if entries of the same column write the
same. -/
theorem holdsRow_iff : HoldsRow columns fields n row (draftRow columns fields n row).document ↔
    Consistent columns fields n row := by
  constructor
  · intro hholds e he e' he' hname v v' hv hv'
    have hsame := (hholds e he v hv).symm.trans (hname ▸ hholds e' he' v' hv')
    exact Option.some.inj hsame
  · intro hconsistent e he v hv
    rw [get?_draftRow_column (of_mem_zip he).1, get?_foldl_writeColumn]
    cases hw : findSome? _ (columns.zip row).reverse with
    | none =>
      have hnone := findSome?_eq_none_iff.mp hw e (mem_reverse.mpr he)
      rw [if_pos rfl, hv] at hnone
      cases hnone
    | some w =>
      obtain ⟨e', he', hw'⟩ := exists_of_findSome?_eq_some hw
      split at hw'
      · rename_i hname
        rw [hconsistent e he e' (mem_reverse.mp he') hname.symm v w hv hw']
        rfl
      · cases hw'

theorem consistent_of_nodup (h : columns.Nodup) : Consistent columns fields n row := by
  intro e he e' he' hname v v' hv hv'
  have hvalue : e.2 = e'.2 := Option.some.inj
    ((lookup_zip_of_mem h he).symm.trans (hname ▸ lookup_zip_of_mem h he'))
  rw [hname, hvalue, hv'] at hv
  exact (Option.some.inj hv).symm

/-- An insertion that succeeds ends with sending the documents of its rows to the store. -/
theorem calls_execute {s s' : Store} {outcome : Outcome}
    (h : effect i.execute s = (.ok outcome, s')) :
    ∃ numbers : Numbers, s'.calls.getLast? = some (.insertMany i.collection
      (draftRows i.columns numbers.fields numbers.first i.rows).1 false) := by
  rw [execute_eq] at h
  rcases hincrement : effect i.increment s with ⟨fault | entry, after⟩
  · rw [effect_bind_of_error hincrement] at h
    cases h
  · rw [effect_bind_of_ok hincrement] at h
    cases hnumbers : numbersOf i.collection i.rows.length entry with
    | error fault =>
      rw [hnumbers, effect_bind_of_error (effect_lift _ _)] at h
      cases h
    | ok numbers =>
      rw [hnumbers, effect_bind_of_ok (effect_lift _ _), putRows_eq] at h
      refine ⟨numbers, ?_⟩
      cases hfailure : after.failure with
      | some why =>
        rw [effect_bind_of_error (Store.effect_insertMany_of_failure hfailure ..)] at h
        cases h
      | none =>
        rw [effect_bind_of_ok (Store.effect_insertMany hfailure ..), effect_pure] at h
        cases h
        exact getLast?_concat

/-- An INSERT compiles to what it says, whichever marks stand before its rows and whether or not its
columns touch the table.  From any tokens that are accepted the rows are read in order, each with its
values in order and one for each column; and the document that is stored for a row holds all that the
row writes, each under its column, exactly if entries of the same column write the same. -/
theorem compile_keeps_rows (r : Reading) :
    (∀ {sql : String} {lexemes : List Lexeme} {holes : Nat} {p : InsertParts},
      lex sql = .ok (lexemes, holes) → InsertParts.Spelled lexemes p →
        ∃ tokens, Token.ofText sql = .ok (tokens, holes) ∧ compile r tokens = p.compiled r.scope) ∧
    ∀ {tokens : List Token} {i : Insert}, compile r tokens = .ok i →
      ReadFrom r tokens i ∧ (∀ row ∈ i.rows, row.length = i.columns.length) ∧
      ∀ {s s' : Store} {outcome : Outcome}, effect i.execute s = (.ok outcome, s') →
        ∃ (numbers : Numbers) (documents : List Fields),
          s'.calls.getLast? = some (.insertMany i.collection documents false) ∧
          documents.length = i.rows.length ∧
          ∀ (k : Nat) (row : List InsertValue) (document : Fields), i.rows[k]? = some row →
            documents[k]? = some document →
            (HoldsRow i.columns numbers.fields (numbers.first + k) row document ↔
              Consistent i.columns numbers.fields (numbers.first + k) row) ∧
            (i.columns.Nodup →
              HoldsRow i.columns numbers.fields (numbers.first + k) row document) := by
  refine ⟨fun hlex hspelled => ?_, fun hcompile => ?_⟩
  · obtain ⟨tokens, hgroup, hcompiled⟩ := hspelled.compile_eq
    refine ⟨tokens, ?_, hcompiled r⟩
    simp only [Token.ofText, hlex, hgroup, Compiled.ok_bind]
    rfl
  · have hread := readFrom_of_compile hcompile
    refine ⟨hread, ?_, fun hexecute => ?_⟩
    · obtain ⟨_, _, _, _, _, hrows, _⟩ := hread
      exact hrows.width
    · obtain ⟨numbers, hcall⟩ := calls_execute hexecute
      refine ⟨numbers, _, hcall, ?_, fun k row document hrow hdocument => ?_⟩
      · rw [draftRows_eq_mapIdx, List.length_mapIdx]
      · rw [draftRows_eq_mapIdx, List.getElem?_mapIdx, hrow] at hdocument
        cases hdocument
        exact ⟨holdsRow_iff, fun hnodup => holdsRow_iff.mpr (consistent_of_nodup hnodup)⟩

namespace Sample

/-- A reading with one parameter. -/
def reading : Reading where
  scope := { params := [.int 7] }
  aliases := false
  subselect _ := undecodable .expectedExpression

/-- An INSERT of two rows. -/
def twoRows : InsertParts where
  table := "t"
  columns := ["a", "b"]
  rows := [[.constant (.int 1), .default], [.placeholder 0, .constant .null]]

/-- The INSERT with VALUES before each row and the columns at the table. -/
def touching : String := "INSERT INTO t(a, b) VALUES (1, DEFAULT) VALUES (?, NULL)"

/-- Its lexemes. -/
def touchingLexemes : List Lexeme :=
  [⟨.keyword .INSERT, false, 0⟩, ⟨.keyword .INTO, true, 7⟩, ⟨.name "t", true, 12⟩,
    ⟨.lparen, false, 13⟩, ⟨.name "a", false, 14⟩, ⟨.comma, false, 15⟩, ⟨.name "b", true, 17⟩,
    ⟨.rparen, false, 18⟩, ⟨.keyword .VALUES, true, 20⟩, ⟨.lparen, true, 27⟩,
    ⟨.number "1", false, 28⟩, ⟨.comma, false, 29⟩, ⟨.keyword .DEFAULT, true, 31⟩,
    ⟨.rparen, false, 38⟩, ⟨.keyword .VALUES, true, 40⟩, ⟨.lparen, true, 47⟩,
    ⟨.placeholder 0, false, 48⟩, ⟨.comma, false, 49⟩, ⟨.null, true, 51⟩, ⟨.rparen, false, 55⟩]

/-- The INSERT with a comma between the rows and blanks around the columns. -/
def apart : String := "INSERT INTO t ( a,b ) VALUES (1, DEFAULT), (?, NULL)"

/-- Its lexemes. -/
def apartLexemes : List Lexeme :=
  [⟨.keyword .INSERT, false, 0⟩, ⟨.keyword .INTO, true, 7⟩, ⟨.name "t", true, 12⟩,
    ⟨.lparen, true, 14⟩, ⟨.name "a", true, 16⟩, ⟨.comma, false, 17⟩, ⟨.name "b", false, 18⟩,
    ⟨.rparen, true, 20⟩, ⟨.keyword .VALUES, true, 22⟩, ⟨.lparen, true, 29⟩,
    ⟨.number "1", false, 30⟩, ⟨.comma, false, 31⟩, ⟨.keyword .DEFAULT, true, 33⟩,
    ⟨.rparen, false, 40⟩, ⟨.comma, false, 41⟩, ⟨.lparen, true, 43⟩, ⟨.placeholder 0, false, 44⟩,
    ⟨.comma, false, 45⟩, ⟨.null, true, 47⟩, ⟨.rparen, false, 51⟩]

theorem entries_listed (spaced spaced' spaced'' : Bool) (start start' start'' : Nat) :
    Token.Listed RowEntry.WrittenBy
      [⟨.number "1", spaced, start⟩, ⟨.comma, spaced', start'⟩, ⟨.keyword .DEFAULT, spaced'', start''⟩]
      [.constant (.int 1), .default] :=
  .more (.number (by cbv)) rfl (.one .default)

theorem touching_spelled : lex touching = .ok (touchingLexemes, 1) ∧
    InsertParts.Spelled touchingLexemes twoRows := by
  refine ⟨by decide +kernel, @InsertParts.Spelled.intro _ _ _ _ _ [_, _, _] _ _ rfl rfl (.inl rfl) rfl
    (.more (.inl rfl) rfl (.one (.inl rfl))) rfl ?_⟩
  refine @RowsSpelled.cons _ _ _ _ [_, _, _] _ _ _ (.inl rfl) rfl (entries_listed ..) rfl ?_
  exact @RowsSpelled.cons _ _ _ _ [_, _, _] _ _ _ (.inl rfl) rfl
    (.more (.placeholder 0) rfl (.one .null)) rfl (.nil _)

theorem apart_spelled : lex apart = .ok (apartLexemes, 1) ∧
    InsertParts.Spelled apartLexemes twoRows := by
  refine ⟨by decide +kernel, @InsertParts.Spelled.intro _ _ _ _ _ [_, _, _] _ _ rfl rfl (.inl rfl) rfl
    (.more (.inl rfl) rfl (.one (.inl rfl))) rfl ?_⟩
  refine @RowsSpelled.cons _ _ _ _ [_, _, _] _ _ _ (.inl rfl) rfl (entries_listed ..) rfl ?_
  exact @RowsSpelled.cons _ _ _ _ [_, _, _] _ _ _ (.inr ⟨rfl, rfl⟩) rfl
    (.more (.placeholder 0) rfl (.one .null)) rfl (.nil _)

/-- The tokens of an INSERT that names a column twice. -/
def doubled : List Token := [.keyword .INSERT, .keyword .INTO, .name none "t",
    .paren [.name none "a", .punctuation ',', .name none "a"], .keyword .VALUES,
    .paren [.literal (.int 1), .punctuation ',', .literal (.int 2)]]

/-- The insertion that they compile to. -/
def doubledInsert : Insert where
  collection := "t"
  columns := ["a", "a"]
  rows := [[.value (.int 1), .value (.int 2)]]

theorem compile_doubled : compile reading doubled = .ok doubledInsert := by cbv

/-- Both forms compile to the same, and a column that is named twice keeps its last value only. -/
theorem forms_and_doubled :
    (∃ tokens, Token.ofText touching = .ok (tokens, 1) ∧
      compile reading tokens = twoRows.compiled reading.scope) ∧
    (∃ tokens, Token.ofText apart = .ok (tokens, 1) ∧
      compile reading tokens = twoRows.compiled reading.scope) ∧
    ∃ (numbers : Numbers) (document : Fields),
      (effect doubledInsert.execute {}).2.calls.getLast? =
        some (.insertMany "t" [document] false) ∧
      ¬ HoldsRow ["a", "a"] numbers.fields numbers.first [.value (.int 1), .value (.int 2)] document := by
  obtain ⟨hforms, hrows⟩ := compile_keeps_rows reading
  refine ⟨hforms touching_spelled.1 touching_spelled.2, hforms apart_spelled.1 apart_spelled.2, ?_⟩
  have hexecute : effect doubledInsert.execute {} =
      (.ok ⟨1, some (Store.makeId 0 1)⟩, (effect doubledInsert.execute {}).2) := by rfl
  obtain ⟨-, -, hstored⟩ := hrows compile_doubled
  obtain ⟨numbers, documents, hcall, hlength, hholds⟩ := hstored hexecute
  obtain ⟨document, rfl⟩ := List.length_eq_one_iff.mp hlength
  refine ⟨numbers, document, hcall, fun hrow => ?_⟩
  have hconsistent := (hholds 0 _ document rfl rfl).1
  rw [Int.ofNat_zero, Int.add_zero] at hconsistent
  have hsame := hconsistent.mp hrow _ List.mem_cons_self _ (List.mem_cons_of_mem _ List.mem_cons_self)
    rfl _ _ rfl rfl
  cases hsame

end Sample

end Insert

end DocSql
