import Mathlib
import DocSql.Proofs.LexemeSpelling
import DocSql.Proofs.Placeholders

/-! # Insignificant text

Blanks, the case of reserved words, and semicolons at the end do not matter to what a text says.  A
respelled text is divided into the same lexemes (`Respelled.reads?_eq`), with semicolons behind them
that the folding of the level leaves at its end, where they are cut off; so it has the same statement
(`restates_of_respelled`).  The exception is a percent sign with SELECT or SET right behind it, which
turns into a placeholder with the small letter (`percentWord_misread`).
-/
namespace DocSql

open Text Compiled List

variable {closing lexemes : List Lexeme}

/-! ### Respelled texts have the same lexemes -/

theorem scan_semicolon (previous : Option LexemeKind) (holes : Nat) (cs : List Char) :
    scan previous holes ';' cs = .ok ⟨.semicolon, 0, holes⟩ := by
  have hmark : (';', .semicolon) ∈ marks := by decide
  obtain ⟨c, p, hpiece, -, hscan⟩ := (@scans_mark cs _ previous holes _ hmark).scan_eq
  cases hpiece
  exact hscan

/-- Whether the lexemes are semicolons. -/
def Lexeme.Closing (lexemes : List Lexeme) : Prop := ∀ l ∈ lexemes, l.kind = .semicolon

namespace LexState

/-- Blanks and semicolons are read as semicolons. -/
theorem reads?_closing (s : LexState) (h : ∀ c ∈ s.rest, isBlank c = true ∨ c = ';') :
    ∃ closing, Lexeme.Closing closing ∧ s.reads? = some (closing, s.holes) := by
  induction hn : s.rest.length using Nat.strongRecOn generalizing s with
  | ind n ih =>
    subst hn
    rw [reads?_eq]
    cases hscan : s.scan? with
    | none => exact ⟨[], nofun, rfl⟩
    | some x =>
      obtain ⟨c, cs, hcs, hx⟩ := scan?_eq_some hscan
      have hmem : ∀ d ∈ c :: cs, isBlank d = true ∨ d = ';' := by
        rw [← hcs]
        exact fun d hd => h d (mem_of_mem_drop hd)
      have hhead := head_drop_blanks s.rest
      rw [show (s.rest.takeWhile isBlank).length = s.blanks from rfl, hcs] at hhead
      obtain ⟨hc, -⟩ := forall_mem_cons.mp hmem
      obtain rfl : c = ';' := hc.resolve_left (by rw [show isBlank c = false from hhead]; exact nofun)
      rw [scan_semicolon] at hx
      subst hx
      obtain ⟨closing, hclosing, hreads⟩ := ih _ (length_rest_after hscan _)
        (s.after ⟨.semicolon, 0, s.holes⟩) (fun d hd => h d (mem_of_mem_drop hd)) rfl
      refine ⟨(s.lexeme ⟨.semicolon, 0, s.holes⟩).unplaced :: closing, ?_, ?_⟩
      · exact forall_mem_cons.mpr ⟨rfl, hclosing⟩
      · simp only [hreads]
        rfl

end LexState

namespace Respelled

variable {s : LexState} {text : List Char}

/-- The lexeme that is next has its respelled characters in the respelled text. -/
theorem scan?_step {r : Scan} {gap piece text : List Char} (reads : s.scan? = some (.ok r))
    (blanks : ∀ c ∈ gap, isBlank c = true)
    (spells : if r.kind.isReserved then outline false piece = outline false (s.piece r)
      else piece = s.piece r) (behind : r.kind = .operator "%" → Scan.HoleFree text)
    (h : Alike (s.after r).rest text) :
    ∃ r' : Scan, r'.kind = r.kind ∧ r'.holes = r.holes ∧ r'.more + 1 = piece.length ∧
      LexState.blanks { s with rest := gap ++ (piece ++ text) } = gap.length ∧
      LexState.scan? { s with rest := gap ++ (piece ++ text) } = some (.ok r') := by
  have hscans := (LexState.scans_piece reads).2.2.respelled spells behind h
  obtain ⟨c, p, rfl, hc, hscan⟩ := hscans.scan_eq
  have hblanks : LexState.blanks { s with rest := gap ++ (c :: p ++ text) } = gap.length :=
    LexState.blanks_append rfl blanks hc
  refine ⟨⟨r.kind, p.length, r.holes⟩, rfl, rfl, rfl, hblanks, ?_⟩
  rw [LexState.scan?, hblanks, drop_left]
  exact congrArg some hscan

/-- A respelled text is divided into the same lexemes, with semicolons behind them. -/
theorem reads?_eq (h : Respelled Scan.HoleFree s text) {holes : Nat}
    (hs : s.reads? = some (lexemes, holes)) : ∃ closing, Lexeme.Closing closing ∧
      LexState.reads? { s with rest := text } = some (lexemes ++ closing, holes) := by
  induction h generalizing lexemes holes with
  | @done s gap tail ends blanks nil_iff closing =>
    rw [LexState.reads?_eq, ends] at hs
    cases hs
    refine LexState.reads?_closing { s with rest := gap ++ tail } ?_
    exact forall_mem_append.mpr ⟨fun c hc => .inl (blanks c hc), closing⟩
  | @step s r gap piece text reads blanks nil_iff spells behind rest ih =>
    rw [LexState.reads?_eq, reads] at hs
    obtain ⟨⟨lexemes', holes'⟩, hrest, heq⟩ := Option.map_eq_some_iff.mp hs
    cases heq
    obtain ⟨r', hkind, hholes, hmore, hblanks, hscan⟩ :=
      scan?_step reads blanks spells behind rest.alike
    obtain ⟨closing, hclosing, hreads⟩ := ih hrest
    refine ⟨closing, hclosing, ?_⟩
    rw [LexState.reads?_eq, hscan]
    have hlexeme : (LexState.lexeme { s with rest := gap ++ (piece ++ text) } r').unplaced =
        (s.lexeme r).unplaced := by
      have hspaced : 0 < gap.length ↔ 0 < s.blanks := by
        rw [length_pos_iff, Nat.pos_iff_ne_zero, Ne, Ne, nil_iff]
      simp only [LexState.lexeme, Lexeme.unplaced, hkind, hblanks, hspaced]
    have hafter : LexState.after { s with rest := gap ++ (piece ++ text) } r' =
        { s.after r with
          position := s.position + gap.length + (r'.more + 1)
          rest := text } := by
      simp only [LexState.after, hblanks, hholes, hkind, hmore]
      rw [← drop_drop, drop_left, drop_left]
    simp only [hafter, hlexeme]
    rw [LexState.reads?_moved { s.after r with rest := text }, hreads]
    rfl

end Respelled

/-! ### Lexemes behind others -/

/-- Whether the lexemes go on with no name before them: they start with neither a dot nor a
parenthesis. -/
def Lexeme.Apart (lexemes : List Lexeme) : Prop :=
  ∀ l ∈ lexemes.head?, l.kind ≠ .dot ∧ l.kind ≠ .lparen

theorem Lexeme.Closing.apart (h : Closing closing) : Apart closing := by
  intro l hl
  rw [h l (mem_of_head? hl)]
  exact ⟨nofun, nofun⟩

namespace Token

section

variable {more : List Lexeme} (hmore : Lexeme.Apart more)

include hmore

theorem readName_apart (first : String) : readName first more = .ok (.name none first, 0) := by
  rcases more with _ | ⟨⟨kind, spaced, start⟩, more⟩
  · rfl
  · cases kind with
    | dot => exact absurd rfl (hmore _ rfl).1
    | _ => rfl

/-- A name is read the same way with more behind the lexemes. -/
theorem readName_append {first : String} {rest : List Lexeme} {t : Token} {taken : Nat}
    (h : readName first rest = .ok (t, taken)) :
    readName first (rest ++ more) = .ok (t, taken) ∧ taken ≤ rest.length := by
  rcases rest with _ | ⟨⟨kind, spaced, start⟩, _ | ⟨member, rest⟩⟩
  · cases h
    exact ⟨readName_apart hmore first, Nat.le_refl _⟩
  · cases kind with
    | dot => cases h
    | _ =>
      cases h
      exact ⟨rfl, Nat.zero_le _⟩
  · cases kind with
    | dot =>
      refine ⟨h, ?_⟩
      simp only [readName] at h
      split at h <;> cases h
      simp
    | _ =>
      cases h
      exact ⟨rfl, Nat.zero_le _⟩

/-- One step of the assembly is the same with more behind the lexemes. -/
theorem assembleOne_append {state state' : Assembly} {l : Lexeme} {rest : List Lexeme} {taken : Nat}
    (h : assembleOne state l rest = .ok (state', taken)) :
    assembleOne state l (rest ++ more) = .ok (state', taken) ∧ taken ≤ rest.length := by
  obtain ⟨kind, spaced, start⟩ := l
  -- a name that no call begins with
  let push : Token × Nat → Except ParseError (Assembly × Nat) := fun x =>
    .ok (⟨state.stack, x.1 :: state.before⟩, x.2)
  have hname {first : String} (h : readName first rest >>= push = .ok (state', taken)) :
      readName first (rest ++ more) >>= push = .ok (state', taken) ∧ taken ≤ rest.length := by
    obtain ⟨⟨token, taken'⟩, hread, h⟩ := bind_eq_ok.mp h
    cases h
    obtain ⟨hread', htaken⟩ := readName_append hmore hread
    exact ⟨bind_eq_ok.mpr ⟨_, hread', rfl⟩, htaken⟩
  cases kind with
  | lparen =>
    cases h
    exact ⟨rfl, Nat.zero_le _⟩
  | rparen =>
    refine ⟨h, ?_⟩
    simp only [assembleOne] at h
    split at h
    · cases h
    · obtain ⟨token, -, h⟩ := bind_eq_ok.mp h
      cases h
      exact Nat.zero_le _
  | name first =>
    rcases rest with _ | ⟨⟨kind, spaced', start'⟩, rest⟩
    · rcases more with _ | ⟨⟨kind, spaced', start'⟩, more⟩
      · exact ⟨h, (hname h).2⟩
      · cases kind with
        | lparen => exact absurd rfl (hmore _ rfl).2
        | _ => exact hname h
    · cases kind with
      | lparen =>
        cases spaced' with
        | false =>
          cases h
          exact ⟨rfl, by simp⟩
        | true => exact hname h
      | _ => exact hname h
  | quoted first => exact hname h
  | _ =>
    refine ⟨h, ?_⟩
    obtain ⟨token, -, h⟩ := bind_eq_ok.mp h
    cases h
    exact Nat.zero_le _

/-- The assembly goes on behind lexemes that are put together to tokens. -/
theorem assemble_append {state : Assembly} {tokens : List Token}
    (h : assemble state lexemes = .ok tokens) :
    assemble state (lexemes ++ more) = assemble ⟨[], tokens.reverse⟩ more := by
  fun_induction assemble state lexemes with
  | case1 state hstack =>
    cases h
    obtain ⟨stack, before⟩ := state
    obtain rfl : stack = [] := isEmpty_iff.mp hstack
    rw [reverse_reverse, nil_append]
  | case2 => cases h
  | case3 state l rest state' taken hone ih =>
    obtain ⟨hone', htaken⟩ := assembleOne_append hmore hone
    rw [cons_append, assemble, hone']
    simp only
    rw [drop_append_of_le_length htaken]
    exact ih h
  | case4 => cases h

end

/-! ### Semicolons behind a statement -/

theorem assemble_closing (before : List Token) (hclosing : Lexeme.Closing closing) :
    assemble ⟨[], before⟩ closing = .ok (before.reverse ++ semicolons closing.length) := by
  induction closing generalizing before with
  | nil => simp [assemble, semicolons]
  | cons l closing ih =>
    obtain ⟨hl, hrest⟩ := forall_mem_cons.mp hclosing
    obtain ⟨kind, spaced, start⟩ := l
    obtain rfl : kind = .semicolon := hl
    have hone : assembleOne ⟨[], before⟩ ⟨.semicolon, spaced, start⟩ closing =
      .ok (⟨[], .punctuation ';' :: before⟩, 0) := rfl
    rw [assemble, hone]
    simp only [drop_zero]
    rw [ih _ hrest, length_cons, semicolons_succ]
    simp

/-- Semicolons behind the lexemes are semicolons behind the tokens. -/
theorem group_append {tokens : List Token} (hclosing : Lexeme.Closing closing)
    (h : group lexemes = .ok tokens) :
    group (lexemes ++ closing) = .ok (tokens ++ semicolons closing.length) := by
  obtain ⟨raw, hraw, h⟩ := bind_eq_ok.mp h
  refine bind_eq_ok.mpr ⟨raw ++ semicolons closing.length, ?_, ?_⟩
  · rw [assemble_append hclosing.apart hraw, assemble_closing _ hclosing, reverse_reverse]
  · exact finish_append_semicolons h _

end Token

namespace Statement

theorem trimSemicolons_append (tokens : List Token) (n : Nat) :
    trimSemicolons (tokens ++ Token.semicolons n) = trimSemicolons tokens := by
  unfold trimSemicolons
  rw [reverse_append, Token.semicolons, reverse_replicate, dropWhile_append_of_pos]
  intro t ht
  rw [(mem_replicate.mp ht).2]
  rfl

/-- The text has the same statement: of the same kind, with the same tokens and for as many
parameters, so that it compiles to the same commands. -/
def Restates (statement : Statement) (sql : String) : Prop :=
  ∃ statement', parse sql = .ok statement' ∧ statement'.kind = statement.kind ∧
    statement'.tokens = statement.tokens ∧ statement'.placeholders = statement.placeholders ∧
    ∀ params, Command.compile statement' params = Command.compile statement params

/-- Texts with the same lexemes, up to semicolons behind them, have the same statement. -/
theorem restates_of_reads? {sql sql' : String} {statement : Statement}
    (hparse : parse sql = .ok statement)
    (h : ∀ lexemes holes, (LexState.initial sql.toList).reads? = some (lexemes, holes) →
      ∃ closing, Lexeme.Closing closing ∧
        (LexState.initial sql'.toList).reads? = some (lexemes ++ closing, holes)) :
    statement.Restates sql' := by
  rw [← toOption_eq_some, toOption_parse, Token.toOption_ofText] at hparse
  obtain ⟨⟨tokens, count⟩, htext, hstatement⟩ := Option.bind_eq_some_iff.mp hparse
  obtain ⟨⟨lexemes, holes⟩, hreads, htokens⟩ := Option.bind_eq_some_iff.mp htext
  obtain ⟨_, hgroup, heq⟩ := Option.map_eq_some_iff.mp htokens
  cases heq
  obtain ⟨kind, hkind, rfl⟩ := Option.map_eq_some_iff.mp hstatement
  obtain ⟨closing, hclosing, hreads'⟩ := h lexemes count hreads
  have hgroup' := Token.group_append hclosing (toOption_eq_some.mp hgroup)
  refine ⟨⟨kind, trimSemicolons tokens, sql', count⟩, ?_, rfl, rfl, rfl, fun params => rfl⟩
  rw [← toOption_eq_some, toOption_parse, Token.toOption_ofText, hreads']
  simp only [Option.bind_some, hgroup', toOption_ok, Option.map_some, trimSemicolons_append, hkind]

/-- What a text says does not depend on its blanks, on the case of its reserved words, or on blanks and
semicolons at its end: a respelled text has the same statement.  Behind a percent sign that is an
operator, the respelled text must not have a small `s` that makes it a placeholder. -/
theorem restates_of_respelled {sql sql' : String} {statement : Statement}
    (hparse : parse sql = .ok statement)
    (h : Respelled Scan.HoleFree (.initial sql.toList) sql'.toList) : statement.Restates sql' :=
  restates_of_reads? hparse fun _ _ hreads => h.reads?_eq hreads

namespace Sample

/-- A text with a compound keyword and a percent sign that is an operator. -/
def grouped : String := "SELECT a % b GROUP BY a"

/-- The same text, spelled in another way. -/
def groupedAgain : String := "select a %  b\nGroup\t by a ;"

set_option maxRecDepth 8000 in
theorem respelled_grouped : Respelled Scan.HoleFree (.initial grouped.toList) groupedAgain.toList := by
  refine .step ⟨.keyword .SELECT, 5, 0⟩ [] "select".toList " a %  b\nGroup\t by a ;".toList
    (by with_unfolding_all rfl) (forall_mem_nil _) (by decide) (by decide) (by simp) ?_
  change Respelled _ ⟨6, 0, some (.keyword .SELECT), " a % b GROUP BY a".toList⟩ _
  refine .step ⟨.name "a", 0, 0⟩ [' '] ['a'] " %  b\nGroup\t by a ;".toList
    (by with_unfolding_all rfl) (all_eq_true.mp rfl) (by decide) (by decide) (by simp) ?_
  change Respelled _ ⟨8, 0, some (.name "a"), " % b GROUP BY a".toList⟩ _
  refine .step ⟨.operator "%", 0, 0⟩ [' '] ['%'] "  b\nGroup\t by a ;".toList
    (by with_unfolding_all rfl) (all_eq_true.mp rfl) (by decide) (by decide)
    (fun _ => ⟨by decide, by decide +kernel⟩) ?_
  change Respelled _ ⟨10, 0, some (.operator "%"), " b GROUP BY a".toList⟩ _
  refine .step ⟨.name "b", 0, 0⟩ [' ', ' '] ['b'] "\nGroup\t by a ;".toList
    (by with_unfolding_all rfl) (all_eq_true.mp rfl) (by decide) (by decide) (by simp) ?_
  change Respelled _ ⟨12, 0, some (.name "b"), " GROUP BY a".toList⟩ _
  refine .step ⟨.keyword .GROUP_BY, 7, 0⟩ ['\n'] "Group\t by".toList " a ;".toList
    (by with_unfolding_all rfl) (all_eq_true.mp rfl) (by decide) (by decide) (by simp) ?_
  change Respelled _ ⟨21, 0, some (.keyword .GROUP_BY), " a".toList⟩ _
  refine .step ⟨.name "a", 0, 0⟩ [' '] ['a'] " ;".toList
    (by with_unfolding_all rfl) (all_eq_true.mp rfl) (by decide) (by decide) (by simp) ?_
  exact .done [] [' ', ';'] (by decide +kernel) (forall_mem_nil _) (by decide)
    (forall_mem_cons.mpr ⟨.inl rfl, forall_mem_singleton.mpr (.inr rfl)⟩)

theorem parse_grouped : (parse grouped).toOption.map (fun statement =>
    (statement.kind, statement.tokens.length, statement.placeholders)) = some (.select, 4, 0) := by
  decide +kernel

/-- The text and its respelling have the same statement. -/
theorem groupedAgain_restates : ∃ statement, parse grouped = .ok statement ∧
    statement.kind = .select ∧ statement.tokens.length = 4 ∧ statement.Restates groupedAgain := by
  obtain ⟨statement, hparse, hfacts⟩ := Option.map_eq_some_iff.mp parse_grouped
  obtain ⟨hkind, hfacts⟩ := Prod.mk.inj hfacts
  have hparse := Compiled.toOption_eq_some.mp hparse
  exact ⟨statement, hparse, hkind, (Prod.mk.inj hfacts).1,
    restates_of_respelled hparse respelled_grouped⟩

/-- A text whose percent sign has a keyword right behind it. -/
def percentWord : String := "SELECT a %SET"

/-- The same text with the keyword in small letters. -/
def percentHole : String := "SELECT a %set"

set_option maxRecDepth 8000 in
theorem respelled_percentWord :
    Respelled (fun _ => True) (.initial percentWord.toList) percentHole.toList := by
  refine .step ⟨.keyword .SELECT, 5, 0⟩ [] "SELECT".toList " a %set".toList
    (by with_unfolding_all rfl) (forall_mem_nil _) (by decide) (by decide) (by simp) ?_
  change Respelled _ ⟨6, 0, some (.keyword .SELECT), " a %SET".toList⟩ _
  refine .step ⟨.name "a", 0, 0⟩ [' '] ['a'] " %set".toList
    (by with_unfolding_all rfl) (all_eq_true.mp rfl) (by decide) (by decide) (by simp) ?_
  change Respelled _ ⟨8, 0, some (.name "a"), " %SET".toList⟩ _
  refine .step ⟨.operator "%", 0, 0⟩ [' '] ['%'] "set".toList
    (by with_unfolding_all rfl) (all_eq_true.mp rfl) (by decide) (by decide)
    (fun _ => trivial) ?_
  change Respelled _ ⟨10, 0, some (.operator "%"), "SET".toList⟩ _
  refine .step ⟨.keyword .SET, 2, 0⟩ [] "set".toList []
    (by with_unfolding_all rfl) (forall_mem_nil _) (by decide) (by decide) (by simp) ?_
  exact .done [] [] (by decide +kernel) (forall_mem_nil _) (by decide) (forall_mem_nil _)

theorem placeholders_percentWord :
    (parse percentWord).toOption.map Statement.placeholders = some 0 := by
  decide +kernel

theorem placeholders_percentHole :
    (parse percentHole).toOption.map Statement.placeholders = some 1 := by
  decide +kernel

/-- Not every respelled text has the same statement: a keyword right behind a percent sign must keep
its capital, or the percent sign and the small letter are a placeholder. -/
theorem percentWord_misread : ¬∀ sql sql' statement, parse sql = .ok statement →
    Respelled (fun _ => True) (.initial sql.toList) sql'.toList → statement.Restates sql' := by
  intro hall
  obtain ⟨statement, hparse, hcount⟩ := Option.map_eq_some_iff.mp placeholders_percentWord
  obtain ⟨statement', hparse', -, -, hsame, -⟩ := hall percentWord percentHole statement
    (Compiled.toOption_eq_some.mp hparse) respelled_percentWord
  have hcount' := placeholders_percentHole
  rw [hparse', Compiled.toOption_ok, Option.map_some, hsame, hcount] at hcount'
  cases hcount'

end Sample

end Statement

end DocSql
