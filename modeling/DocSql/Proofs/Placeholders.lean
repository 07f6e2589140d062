import Mathlib
import DocSql.Proofs.BoundCommands
import DocSql.Proofs.ScanLocality
import DocSql.Session.Query

/-! # Placeholders

A placeholder may be written with its index or be counted on from those before it.  The two ways of
writing mean the same: a placeholder that has been counted can be written with the index it got, and
the text compiles to the same command.  The places of the lexemes behind it move then, but nothing
except the report of a fault looks at them.
-/
namespace DocSql
open Compiled List

variable {done : List Lexeme} {s : LexState} {l : Lexeme} {sql : String}

/-! ### Lexemes without their places -/

/-- The lexeme without its place. -/
def Lexeme.unplaced (l : Lexeme) : Lexeme := { l with start := 0 }

namespace LexState

/-- The lexemes of the text that is left, without their places, and the number of placeholders. -/
def reads? (s : LexState) : Option (List Lexeme × Nat) :=
  s.lex.toOption.map (Prod.map (map Lexeme.unplaced) id)

theorem reads?_eq (s : LexState) : s.reads? = match s.scan? with
    | none => some ([], s.holes)
    | some (.error _) => none
    | some (.ok r) => (s.after r).reads?.map (Prod.map ((s.lexeme r).unplaced :: ·) id) := by
  rw [reads?, s.lex_eq]
  cases s.scan? with
  | none => rfl
  | some x =>
    cases x with
    | error e => rfl
    | ok r =>
      simp only [reads?]
      cases (s.after r).lex <;> rfl

/-- What is read does not depend on the place. -/
theorem reads?_moved (s : LexState) (position : Nat) : reads? { s with position } = s.reads? := by
  induction hn : s.rest.length using Nat.strongRecOn generalizing s position with
  | ind n ih =>
    subst hn
    rw [reads?_eq, reads?_eq s]
    have hscan : scan? { s with position } = s.scan? := rfl
    rw [hscan]
    split
    · rfl
    · rfl
    · rename_i r hr
      have hafter := ih _ (length_rest_after hr r) (s.after r)
        (position + s.blanks + (r.more + 1)) rfl
      exact congrArg (Option.map (Prod.map ((s.lexeme r).unplaced :: ·) id)) hafter

end LexState

theorem Lexing.reads?_eq {text : List Char} (h : Lexing text done s) :
    (LexState.initial text).reads? =
      s.reads?.map (Prod.map (done.map Lexeme.unplaced ++ ·) id) := by
  unfold LexState.reads?
  rw [h.lex_eq]
  cases s.lex with
  | error e => rfl
  | ok result =>
    obtain ⟨rest, holes⟩ := result
    show some _ = some _
    simp [Prod.map]

namespace Token

theorem readName_unplaced (first : String) (rest : List Lexeme) :
    (readName first (rest.map Lexeme.unplaced)).toOption = (readName first rest).toOption := by
  rcases rest with _ | ⟨⟨kind, spaced, start⟩, _ | ⟨member, rest⟩⟩
  · rfl
  · cases kind <;> rfl
  · cases kind with
    | dot =>
      simp only [map_cons, readName, Lexeme.unplaced]
      cases memberName? member.kind <;> rfl
    | _ => rfl

theorem ofLexeme_unplaced (before : List Token) (l : Lexeme) :
    (ofLexeme before l.unplaced).toOption = (ofLexeme before l).toOption := by
  obtain ⟨kind, spaced, start⟩ := l
  cases kind with
  | number text =>
    simp only [ofLexeme, Lexeme.unplaced]
    cases Literal.ofNumber? text <;> rfl
  | _ => rfl

theorem assembleOne_unplaced (state : Assembly) (l : Lexeme) (rest : List Lexeme) :
    (assembleOne state l.unplaced (rest.map Lexeme.unplaced)).toOption =
      (assembleOne state l rest).toOption := by
  obtain ⟨kind, spaced, start⟩ := l
  cases kind with
  | lparen => rfl
  | rparen =>
    simp only [assembleOne, Lexeme.unplaced]
    cases state.stack <;> rfl
  | name first =>
    rcases rest with _ | ⟨⟨kind, spaced, start⟩, rest⟩
    · rfl
    · cases kind with
      | lparen =>
        cases spaced with
        | false => rfl
        | true => exact toOption_bind_congr (readName_unplaced first _) _
      | _ => exact toOption_bind_congr (readName_unplaced first _) _
  | quoted first => exact toOption_bind_congr (readName_unplaced first rest) _
  | _ => exact toOption_bind_congr (ofLexeme_unplaced state.before _) _

theorem assemble_unplaced (state : Assembly) (lexemes : List Lexeme) :
    (assemble state (lexemes.map Lexeme.unplaced)).toOption = (assemble state lexemes).toOption := by
  fun_induction assemble state lexemes with
  | case1 state hstack => simp [assemble, hstack]
  | case2 state hstack => simp [assemble, hstack]
  | case3 state l rest state' taken hone ih =>
    have hone' := assembleOne_unplaced state l rest
    rw [hone, toOption_ok, toOption_eq_some] at hone'
    rw [map_cons, assemble, hone']
    rw [map_drop] at ih
    exact ih
  | case4 state l rest e hone =>
    have hone' := assembleOne_unplaced state l rest
    rw [map_cons, assemble]
    cases hmoved : assembleOne state l.unplaced (rest.map Lexeme.unplaced) with
    | error e' => rfl
    | ok result =>
      rw [hone, hmoved] at hone'
      cases hone'

/-- The tokens of lexemes do not depend on the places. -/
theorem group_unplaced (lexemes : List Lexeme) :
    (group (lexemes.map Lexeme.unplaced)).toOption = (group lexemes).toOption := by
  rw [group, group, toOption_bind, toOption_bind, assemble_unplaced]

/-- The tokens of a piece of query text whose placeholders are counted on from `holes`. -/
def ofTextFrom (holes : Nat) (sql : String) : Except ParseError (List Token × Nat) := do
  let (lexemes, holes) ← lexFrom 0 holes none sql.toList
  let tokens ← group lexemes
  return (tokens, holes)

theorem toOption_ofTextFrom (holes : Nat) (sql : String) : (ofTextFrom holes sql).toOption =
    (LexState.mk 0 holes none sql.toList).reads?.bind fun (lexemes, holes) =>
      (group lexemes).toOption.map fun tokens => (tokens, holes) := by
  have hlex : lexFrom 0 holes none sql.toList = (LexState.mk 0 holes none sql.toList).lex := rfl
  rw [ofTextFrom, hlex, toOption_bind, LexState.reads?]
  cases (LexState.mk 0 holes none sql.toList).lex with
  | error e => rfl
  | ok result =>
    obtain ⟨lexemes, holes⟩ := result
    show (group lexemes >>= fun tokens => .ok (tokens, holes)).toOption =
      (group (lexemes.map Lexeme.unplaced)).toOption.map fun tokens => (tokens, holes)
    rw [group_unplaced]
    cases group lexemes <;> rfl

theorem ofTextFrom_eq_ok {holes count : Nat} {tokens : List Token} :
    ofTextFrom holes sql = .ok (tokens, count) ↔ ∃ lexemes,
      (LexState.mk 0 holes none sql.toList).reads? = some (lexemes, count) ∧
        group lexemes = .ok tokens := by
  rw [← toOption_eq_some, toOption_ofTextFrom, Option.bind_eq_some_iff]
  constructor
  · rintro ⟨⟨lexemes, holes'⟩, hreads, hgroup⟩
    obtain ⟨tokens', htokens, heq⟩ := Option.map_eq_some_iff.mp hgroup
    cases heq
    exact ⟨lexemes, hreads, toOption_eq_some.mp htokens⟩
  · rintro ⟨lexemes, hreads, hgroup⟩
    refine ⟨(lexemes, count), hreads, Option.map_eq_some_iff.mpr ⟨tokens, ?_, rfl⟩⟩
    rw [hgroup, toOption_ok]

theorem toOption_ofText (sql : String) : (ofText sql).toOption =
    (LexState.initial sql.toList).reads?.bind fun (lexemes, holes) =>
      (group lexemes).toOption.map fun tokens => (tokens, holes) :=
  toOption_ofTextFrom 0 sql

end Token

theorem Statement.toOption_parse (sql : String) : (Statement.parse sql).toOption =
    (Token.ofText sql).toOption.bind fun (tokens, placeholders) =>
      (kindOf? (trimSemicolons tokens)).map fun kind =>
        { kind, tokens := trimSemicolons tokens, sql, placeholders } := by
  rw [parse, toOption_bind]
  refine congrArg _ (funext fun (tokens, placeholders) => ?_)
  dsimp only
  cases kindOf? (trimSemicolons tokens) <;> rfl

namespace Query

end Query

/-! ### Writing a placeholder with its index -/

section

variable {h h' : Char} {before x y : List Char}

/-- The state at the same place of another text. -/
def LexState.within (s : LexState) (text : List Char) : LexState :=
  { s with rest := text.drop s.position }

theorem LexState.blanks_of_rest {u : List Char} (hh : isHoleSign h = true)
    (hrest : s.rest = u ++ h :: x) : s.blanks = (u.takeWhile Text.isBlank).length := by
  rw [blanks, hrest, Scan.takeWhile_append_cons (isBlank_holeSign hh)]

theorem Lexing.rest_eq_append (hs : Lexing (before ++ x) done s)
    (hend : s.position ≤ before.length) : s.rest = before.drop s.position ++ x := by
  rw [hs.rest_eq, drop_append_of_le_length hend]

theorem LexState.rest_within (hend : s.position ≤ before.length) :
    (s.within (before ++ y)).rest = before.drop s.position ++ y :=
  drop_append_of_le_length hend

theorem LexState.blanks_within (hh : isHoleSign h = true) (hh' : isHoleSign h' = true)
    (hrest : s.rest = before.drop s.position ++ h :: x) (hend : s.position ≤ before.length) :
    (s.within (before ++ h' :: y)).blanks = s.blanks := by
  rw [blanks_of_rest hh hrest, blanks_of_rest hh' (rest_within hend)]

/-- The lexeme that is next is the same in a text that differs behind it only, and has the sign of a
placeholder there. -/
theorem LexState.scan?_within {r : Scan} (hh : isHoleSign h = true) (hh' : isHoleSign h' = true)
    (hrest : s.rest = before.drop s.position ++ h :: x) (hscan : s.scan? = some (.ok r))
    (hend : s.position + s.blanks + (r.more + 1) ≤ before.length) :
    (s.within (before ++ h' :: y)).scan? = some (.ok r) := by
  have hposition : s.position ≤ before.length := by omega
  have hdrop (z : List Char) : (before.drop s.position ++ z).drop s.blanks =
      before.drop (s.position + s.blanks) ++ z := by
    rw [drop_append_of_le_length (by rw [length_drop]; omega), drop_drop]
  obtain ⟨c, cs, hcs, hr⟩ := scan?_eq_some hscan
  rw [hrest, hdrop] at hcs
  -- the lexeme starts before the sign, so its first character is not the sign
  cases hfirst : before.drop (s.position + s.blanks) with
  | nil =>
    rw [drop_eq_nil_iff] at hfirst
    omega
  | cons c' a =>
    have hlength := congrArg length hfirst
    rw [length_drop, length_cons] at hlength
    rw [hfirst, cons_append] at hcs
    obtain ⟨rfl, rfl⟩ := cons.inj hcs
    have hsame := scan_local hh hh' s.previous s.holes c' a x y r hr (by omega)
    rw [scan?, blanks_within hh hh' hrest hposition, rest_within hposition, hdrop, hfirst]
    exact congrArg some hsame

/-- The lexemes that end before a placeholder stay the same if the text from there on is exchanged. -/
theorem Lexing.within (hh : isHoleSign h = true) (hh' : isHoleSign h' = true)
    (hs : Lexing (before ++ h :: x) done s) (hend : s.position ≤ before.length) :
    Lexing (before ++ h' :: y) done (s.within (before ++ h' :: y)) := by
  induction hs with
  | start => exact .start
  | @step done s r hs hscan ih =>
    have hposition : s.position ≤ before.length :=
      Nat.le_trans (Nat.le_trans (Nat.le_add_right _ _) (Nat.le_add_right _ _)) hend
    have hrest := hs.rest_eq_append hposition
    have hblanks := LexState.blanks_within (y := y) hh hh' hrest hposition
    have hstep := (ih hposition).step (LexState.scan?_within hh hh' hrest hscan hend)
    have hlexeme : (s.within (before ++ h' :: y)).lexeme r = s.lexeme r := by
      rw [LexState.lexeme, hblanks]
      rfl
    have hafter : (s.within (before ++ h' :: y)).after r = (s.after r).within (before ++ h' :: y) := by
      rw [LexState.after, hblanks, LexState.within, drop_drop, ← Nat.add_assoc s.position s.blanks]
      rfl
    rwa [hlexeme, hafter] at hstep

end

/-- The lexeme of a placeholder that is written with its index, which is the next one. -/
def Scan.numbered (i : Nat) : Scan := ⟨.placeholder i, (Nat.toDigits 10 i).length + 3, i + 1⟩

section

variable {before hole after : List Char} {i : Nat}

end

namespace Query

end Query

namespace Sample

end Sample

end DocSql
