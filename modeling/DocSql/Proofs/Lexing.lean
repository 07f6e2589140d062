import DocSql.Lexeme.Basic
import Mathlib.Order.Basic
import Mathlib.Order.Lattice

/-! # Runs of the division into lexemes

The division of a text goes from state to state, one lexeme at a time: `Lexing text done s` says that
it has come to the state `s` with the lexemes `done`.  What is shown of all runs is how placeholders
are counted.  The state holds one more than the largest index so far, and a lexeme is a placeholder
exactly where the text spells one, with the index that the spelling gives.
-/
namespace DocSql
open List

variable {c : Char} {cs digits : List Char} {lexemes : List Lexeme} {x : Except Misscan Scan}

/-! ### Runs -/

/-- A state of the division into lexemes: the number of characters behind it, the index of the next
placeholder without a number, the lexeme before, and the text that is left. -/
structure LexState where
  position : Nat
  holes : Nat
  previous : Option LexemeKind
  rest : List Char

namespace LexState

/-- The state before the first lexeme. -/
def initial (text : List Char) : LexState := ⟨0, 0, none, text⟩

/-- The number of blanks that are next. -/
def blanks (s : LexState) : Nat := (s.rest.takeWhile Text.isBlank).length

/-- What stands behind the blanks: nothing, a lexeme, or a text that is none. -/
def scan? (s : LexState) : Option (Except Misscan Scan) :=
  match s.rest.drop s.blanks with
  | [] => none
  | c :: cs => some (scan s.previous s.holes c cs)

/-- The lexeme that is next, in its place. -/
def lexeme (s : LexState) (r : Scan) : Lexeme := ⟨r.kind, 0 < s.blanks, s.position + s.blanks⟩

/-- The state behind the lexeme that is next. -/
def after (s : LexState) (r : Scan) : LexState where
  position := s.position + s.blanks + (r.more + 1)
  holes := r.holes
  previous := some r.kind
  rest := s.rest.drop (s.blanks + (r.more + 1))

/-- The report of a text that is no lexeme. -/
def refusal (s : LexState) (e : Misscan) : ParseError where
  reason := e.reason
  text := String.ofList ((s.rest.drop s.blanks).take (e.passed + 1))
  start := s.position + s.blanks
  stop := s.position + s.blanks + e.passed

/-- The lexemes of the text that is left. -/
def lex (s : LexState) : Except ParseError (List Lexeme × Nat) :=
  lexFrom s.position s.holes s.previous s.rest

/-- The division goes on lexeme by lexeme. -/
theorem lex_eq (s : LexState) : s.lex = match s.scan? with
    | none => .ok ([], s.holes)
    | some (.error e) => .error (s.refusal e)
    | some (.ok r) => do
      let (rest, holes) ← (s.after r).lex
      return (s.lexeme r :: rest, holes) := by
  unfold lex
  rw [lexFrom, scan?]
  split
  · rename_i hnil
    rw [blanks, hnil]
  · rename_i c cs hcs
    have hdrop (r : Scan) : (s.after r).rest = cs.drop r.more := by
      rw [after, ← drop_drop, blanks, hcs, drop_succ_cons]
    rw [blanks, hcs]
    simp only
    cases scan s.previous s.holes c cs with
    | error e => simp only [refusal, blanks, hcs]
    | ok r =>
      simp only [hdrop]
      rfl

theorem length_rest_after {s : LexState} (h : s.scan? = some x) (r : Scan) :
    (s.after r).rest.length < s.rest.length := by
  have hblanks : s.blanks < s.rest.length := by
    unfold scan? at h
    split at h
    · cases h
    · rename_i c cs hcs
      have := congrArg length hcs
      rw [length_drop, length_cons] at this
      omega
  rw [after, length_drop]
  omega

end LexState

/-- The lexemes of a text up to a place, and the state after them. -/
inductive Lexing (text : List Char) : List Lexeme → LexState → Prop
  | start : Lexing text [] (.initial text)
  | step {done : List Lexeme} {s : LexState} {r : Scan} (before : Lexing text done s)
    (hscan : s.scan? = some (.ok r)) : Lexing text (done ++ [s.lexeme r]) (s.after r)

namespace Lexing

variable {text : List Char} {done : List Lexeme} {s : LexState}

/-- The state holds the text from its place on. -/
theorem rest_eq (h : Lexing text done s) : s.rest = text.drop s.position := by
  induction h with
  | start => rfl
  | @step done s r before hscan ih =>
    show s.rest.drop _ = text.drop (s.position + s.blanks + (r.more + 1))
    rw [ih, drop_drop, Nat.add_assoc]

/-- What is left to do from a state on gives the lexemes of the whole text. -/
theorem lex_eq (h : Lexing text done s) : (LexState.initial text).lex = do
    let (rest, holes) ← s.lex
    return (done ++ rest, holes) := by
  induction h with
  | start => cases (LexState.initial text).lex <;> rfl
  | @step done s r before hscan ih =>
    rw [ih, s.lex_eq, hscan]
    simp only
    cases (s.after r).lex with
    | error e => rfl
    | ok result =>
      obtain ⟨rest, holes⟩ := result
      show Except.ok _ = Except.ok _
      simp

end Lexing

/-! ### Placeholders at the start of a text -/

/-- Whether a character starts a placeholder. -/
def isHoleSign (c : Char) : Bool := c = '?' || c = '%'

theorem holeSign_cases (hc : isHoleSign c = true) : c = '?' ∨ c = '%' := by
  simpa [isHoleSign] using hc

set_option maxRecDepth 4000 in
theorem compounds_holeSign : ∀ k ∈ Keyword.compounds, ∀ w ∈ Text.uppercase k.text.toList,
    isHoleSign w = false := by
  have hall : (Keyword.compounds.all fun k =>
      (Text.uppercase k.text.toList).all fun w => isHoleSign w == false) = true := by decide
  intro k hk w hw
  exact eq_of_beq (all_eq_true.mp (all_eq_true.mp hall k hk) w hw)

theorem matchCapitals_holeSign {ws : List Char} (hc : isHoleSign c = true)
    (hws : ∀ w ∈ ws, isHoleSign w = false) : matchCapitals ws (c :: cs) = none := by
  have hcases := holeSign_cases hc
  cases ws with
  | nil => rcases hcases with rfl | rfl <;> rfl
  | cons w ws =>
    have hw := hws w mem_cons_self
    rw [matchCapitals.eq_def]
    simp only
    split
    · rcases hcases with rfl | rfl <;> rfl
    · have hne : c.toUpper ≠ w := by
        rintro rfl
        rcases hcases with rfl | rfl <;> cases hw
      rw [if_neg hne]

theorem digitsValue_toDigits (n : Nat) : digitsValue (Nat.toDigits 10 n) = n := by
  rw [digitsValue, ← Nat.ofDigitChars_eq_foldl, Nat.ofDigitChars_ten_toDigits]

/-- The index of a lexeme that is a placeholder. -/
def LexemeKind.hole? : LexemeKind → Option Nat
  | .placeholder index => some index
  | _ => none

/-- The ways to write a placeholder, with the index that it gets where `next` is the next one. -/
inductive Spells (next : Nat) : List Char → Nat → Prop
  | mark : Spells next ['?'] next
  | percent : Spells next ['%', 's'] next
  | numbered {digits : List Char} (some_digit : digits ≠ [])
    (all_digits : ∀ d ∈ digits, d.isDigit = true) :
    Spells next ('%' :: '(' :: (digits ++ [')', 's'])) (digitsValue digits)

theorem isDecimal_of_isDigit (h : c.isDigit = true) : Text.isDecimal c = true := by
  have hascii : c.toNat < 0x80 := by
    simp only [Char.isDigit, Bool.and_eq_true, decide_eq_true_eq] at h
    have := UInt32.le_iff_toNat_le.mp h.2
    exact Nat.lt_of_le_of_lt this (by decide)
  rw [Text.isDecimal, if_pos hascii, h]

theorem numberedHole?_append (hne : digits ≠ []) (hdigits : ∀ d ∈ digits, d.isDigit = true)
    (rest : List Char) :
    Scan.numberedHole? ('(' :: (digits ++ ')' :: 's' :: rest)) = some digits := by
  have htake : (digits ++ ')' :: 's' :: rest).takeWhile Text.isDecimal = digits := by
    rw [takeWhile_append_of_pos fun d hd => isDecimal_of_isDigit (hdigits d hd),
      takeWhile_cons_of_neg (by decide), append_nil]
  rw [Scan.numberedHole?]
  simp only [htake, drop_left]
  cases digits with
  | nil => exact absurd rfl hne
  | cons d ds => rfl

theorem numberedHole?_eq_some (h : Scan.numberedHole? cs = some digits) :
    digits ≠ [] ∧ ∃ rest, cs = '(' :: (digits ++ ')' :: 's' :: rest) := by
  unfold Scan.numberedHole? at h
  split at h
  · rename_i cs
    simp only at h
    split at h
    · rename_i d ds rest hdigits hdrop
      obtain rfl := Option.some.inj h
      refine ⟨ne_nil_of_length_pos (by rw [hdigits]; exact Nat.succ_pos _), rest, ?_⟩
      rw [← hdrop, prefix_iff_eq_append.mp (List.takeWhile_prefix _)]
    · cases h
  · cases h

/-- Every lexeme that a scan can give has a property. -/
def Scan.Gives (P : Scan → Prop) (x : Except Misscan Scan) : Prop := ∀ r, x = .ok r → P r

namespace Scan.Gives

variable {P : Scan → Prop} {y : Except Misscan Scan}

theorem ok {r : Scan} (h : P r) : Gives P (.ok r) := by
  rintro _ ⟨⟩
  exact h

theorem error {e : Misscan} : Gives P (.error e) := nofun

theorem ite {c : Prop} [Decidable c] (hx : c → Gives P x) (hy : ¬c → Gives P y) :
    Gives P (if c then x else y) := by
  split
  · rename_i hc
    exact hx hc
  · rename_i hc
    exact hy hc

end Scan.Gives

/-- The marks that are lexemes of their own, whatever follows. -/
def marks : List (Char × LexemeKind) :=
  [('(', .lparen), (')', .rparen), (',', .comma), (';', .semicolon), ('*', .star)]

/-- The signs that are operators wherever they stand. -/
def operatorSigns : List String := ["<=", ">=", "<>", "!=", "||", "<", ">", "=", "+", "-", "/", "%"]

namespace Scan

/-- Whether a percent sign before the text is the operator. -/
def HoleFree (text : List Char) : Prop := text.head? ≠ some 's' ∧ numberedHole? text = none

/-- The operators of two characters. -/
def longOperators : List String := ["<=", ">=", "<>", "!=", "||"]

/-- Whether an operator goes on with the character. -/
def continuesOperator (op : String) (c : Char) : Bool := longOperators.contains (op.push c)

/-- A text with its quotes doubled. -/
def doubled (text : List Char) : List Char := text.flatMap fun c => if c = '\x27' then [c, c] else [c]

/-- The lexemes other than compound keywords: the characters that each is written with, where it does
not go on into the text behind them. -/
inductive Simple (previous : Option LexemeKind) (holes : Nat) (rest : List Char) :
    List Char → LexemeKind → Nat → Prop
  | quoted {quote : Char} {text : List Char} (mark : quote = '\x22' ∨ quote = '\x60')
    (free : quote ∉ text) :
    Simple previous holes rest (quote :: (text ++ [quote])) (.quoted (String.ofList text)) holes
  | string {text : List Char} (ends : rest.head?.any (· == '\x27') = false) :
    Simple previous holes rest ('\x27' :: (doubled text ++ ['\x27'])) (.string (String.ofList text)) holes
  | mark {c : Char} {kind : LexemeKind} (mem : (c, kind) ∈ marks) :
    Simple previous holes rest [c] kind holes
  | dot (ends : startsDigit rest = false) : Simple previous holes rest ['.'] .dot holes
  | hole {piece : List Char} {i : Nat} (spells : Spells holes piece i)
    (fits : piece.length ≤ 2 ∨ i < unsignedBound) :
    Simple previous holes rest piece (.placeholder i) (max holes (i + 1))
  | percent (free : HoleFree rest) : Simple previous holes rest ['%'] (.operator "%") holes
  | operator {op : String} (mem : op ∈ operatorSigns) (ne : op ≠ "%")
    (ends : rest.head?.any (continuesOperator op) = false)
    (minus : op = "-" → opensOperand previous = true → startsDigit rest = false) :
    Simple previous holes rest op.toList (.operator op) holes
  | negative {digits : List Char} (opens : opensOperand previous = true)
    (starts : startsDigit (digits ++ rest) = true) (run : numberRun false (digits ++ rest) = digits) :
    Simple previous holes rest ('-' :: digits) (.number (String.ofList ('-' :: digits))) holes
  | number {c : Char} {digits : List Char}
    (starts : c.isDigit = true ∨ c = '.' ∧ startsDigit (digits ++ rest) = true)
    (run : numberRun false (c :: (digits ++ rest)) = c :: digits) :
    Simple previous holes rest (c :: digits) (.number (String.ofList (c :: digits))) holes
  | word {c : Char} {cs : List Char} (starts : Text.isLetter c = true ∨ c = '_')
    (chars : ∀ d ∈ cs, isWordChar d = true) (ends : rest.head?.any isWordChar = false) :
    Simple previous holes rest (c :: cs) (ofWord (String.ofList (c :: cs))) holes

/-- The lexeme has the form of the characters that it takes of the text. -/
def Found (previous : Option LexemeKind) (holes : Nat) (text : List Char) (r : Scan) : Prop :=
  ∃ piece rest, text = piece ++ rest ∧ piece.length = r.more + 1 ∧
    Simple previous holes rest piece r.kind r.holes

variable {previous : Option LexemeKind} {holes : Nat}

theorem exists_takeWhile (q : Char → Bool) (cs : List Char) :
    ∃ rest, cs = cs.takeWhile q ++ rest ∧ rest.head?.any q = false := by
  refine ⟨cs.dropWhile q, takeWhile_append_dropWhile.symm, ?_⟩
  have hhead := head?_dropWhile_not q cs
  cases hrest : cs.dropWhile q with
  | nil => rfl
  | cons d rest => simpa [hrest] using hhead

theorem quoted_found (hc : c = '\x22' ∨ c = '\x60') :
    Gives (Found previous holes (c :: cs)) (quoted holes c cs) := by
  refine .ite (fun hclosed => .ok ?_) fun _ => .error
  have hfree : c ∉ cs.takeWhile (· ≠ c) := fun hmem => by
    simpa using all_eq_true.mp all_takeWhile c hmem
  obtain ⟨rest, hcs, hrest⟩ := exists_takeWhile (fun d => decide (d ≠ c)) cs
  generalize cs.takeWhile (fun d => decide (d ≠ c)) = text at hclosed hfree hcs ⊢
  subst hcs
  -- the text goes on with the closing quote
  cases rest with
  | nil => simp at hclosed
  | cons d rest =>
    obtain rfl : d = c := by simpa using hrest
    exact ⟨_, rest, by simp, by simp, .quoted hc hfree⟩

/-- A string is read up to a quote that is not doubled. -/
theorem stringRun_eq_some {text : List Char} {n : Nat} (h : stringRun cs = some (text, n)) :
    ∃ rest, cs = doubled text ++ '\x27' :: rest ∧ n = (doubled text).length + 1 ∧
      rest.head?.any (· == '\x27') = false := by
  fun_induction stringRun cs generalizing text n with
  | case1 => cases h
  | case2 =>
    cases h
    exact ⟨[], rfl, rfl, rfl⟩
  | case3 rest ih =>
    obtain ⟨⟨text, n⟩, hrun, heq⟩ := Option.map_eq_some_iff.mp h
    cases heq
    obtain ⟨rest, rfl, rfl, hends⟩ := ih hrun
    exact ⟨rest, rfl, rfl, hends⟩
  | case4 d rest hd =>
    cases h
    exact ⟨d :: rest, rfl, rfl, by simpa using hd⟩
  | case5 c cs hc ih =>
    obtain ⟨⟨text, n⟩, hrun, heq⟩ := Option.map_eq_some_iff.mp h
    cases heq
    obtain ⟨rest, rfl, rfl, hends⟩ := ih hrun
    exact ⟨rest, by simp [doubled, hc], by simp [doubled, hc], hends⟩

theorem percent_found (hc : c = '%') : Gives (Found previous holes (c :: cs)) (percent holes cs) := by
  subst hc
  refine .ite (fun hs => .ok ?_) fun hs => ?_
  · obtain ⟨rest, rfl⟩ := head?_eq_some_iff.mp hs
    have hform : Simple previous holes rest _ _ _ := .hole .percent (.inl (Nat.le_refl 2))
    rw [Nat.max_eq_right (Nat.le_succ holes)] at hform
    exact ⟨_, rest, rfl, rfl, hform⟩
  · split
    · rename_i digits hdigits
      refine .ite (fun hok => .ok ?_) fun _ => .error
      simp only [Bool.and_eq_true, all_eq_true, decide_eq_true_eq] at hok
      obtain ⟨hne, rest, rfl⟩ := numberedHole?_eq_some hdigits
      exact ⟨_, rest, by simp, by simp, .hole (.numbered hne hok.1) (.inr hok.2)⟩
    · rename_i hnone
      exact .ok ⟨['%'], cs, rfl, rfl, .percent ⟨hs, hnone⟩⟩

/-- An operator of two characters does not go on. -/
theorem continuesOperator_long {op : String} (hop : op ∈ longOperators) (d : Char) :
    continuesOperator op d = false := by
  have hlength : ∀ op ∈ longOperators, op.length = 2 := by decide
  refine Bool.eq_false_iff.mpr fun h => ?_
  have hthree := hlength (op.push d) (by simpa [continuesOperator] using h)
  rw [String.length_push, hlength op hop] at hthree
  cases hthree

theorem operator_found
    (hc : c = '<' ∨ c = '>' ∨ c = '!' ∨ c = '=' ∨ c = '+' ∨ c = '-' ∨ c = '/' ∨ c = '|')
    (hminus : c = '-' → opensOperand previous = true → startsDigit cs = false) :
    Gives (Found previous holes (c :: cs)) (operator holes c cs) := by
  have hlong {op : String} : op ∈ longOperators ↔
      op = "<=" ∨ op = ">=" ∨ op = "<>" ∨ op = "!=" ∨ op = "||" := by simp [longOperators]
  refine .ite (fun htwo => .ok ?_) fun htwo => .ite (fun _ => .error) fun hone => .ok ?_
  · have hmem := hlong.mpr htwo
    have hsign : ∀ op ∈ longOperators, op ∈ operatorSigns ∧ op ≠ "%" ∧ op ≠ "-" ∧
        op.toList.length = 2 := by decide
    obtain ⟨hsign, hpercent, hne, hlength⟩ := hsign _ hmem
    refine ⟨_, cs.drop 1, ?_, hlength, .operator hsign hpercent ?_ fun h => absurd h hne⟩
    · rw [String.toList_ofList, cons_append, take_append_drop]
    · cases (cs.drop 1).head? with
      | none => rfl
      | some d => exact continuesOperator_long hmem d
  · have hends : cs.head?.any (continuesOperator (String.singleton c)) = false := by
      cases cs with
      | nil => rfl
      | cons d cs =>
        refine Bool.eq_false_iff.mpr fun h => htwo (hlong.mp ?_)
        simpa [continuesOperator] using h
    have hsign : String.singleton c ∈ operatorSigns ∧ String.singleton c ≠ "%" := by
      rcases hc with rfl | rfl | rfl | rfl | rfl | rfl | rfl | rfl <;> first | decide | simp at hone
    refine ⟨_, cs, by simp, by simp, .operator hsign.1 hsign.2 hends fun h => hminus ?_⟩
    simpa using congrArg String.toList h

theorem numberRun_isPrefix (exponent : Bool) (text : List Char) : numberRun exponent text <+: text := by
  fun_induction numberRun exponent text with
  | case1 => exact nil_prefix
  | case2 exponent c cs hc ih
  | case5 exponent c hc he s rest hs ih => exact (prefix_cons_inj c).mpr ih
  | case3 exponent c hc he => exact prefix_rfl
  | case4 exponent c hc he s rest hs ih =>
    exact (prefix_cons_inj c).mpr ((prefix_cons_inj s).mpr ih)
  | case6 => exact nil_prefix

theorem simple_found (previous : Option LexemeKind) (holes : Nat) (c : Char) (cs : List Char) :
    Gives (Found previous holes (c :: cs)) (simple previous holes c cs) := by
  have mark {kind : LexemeKind} (mem : (c, kind) ∈ marks) :
      Gives (Found previous holes (c :: cs)) (.ok ⟨kind, 0, holes⟩) :=
    .ok ⟨[c], cs, rfl, rfl, .mark mem⟩
  refine .ite quoted_found fun _ => .ite (fun hc => ?_) fun _ => ?_
  · subst hc
    unfold string
    split
    · rename_i text n hrun
      obtain ⟨rest, rfl, rfl, hends⟩ := stringRun_eq_some hrun
      exact .ok ⟨_, rest, by simp, by simp, .string hends⟩
    · exact .error
  refine .ite (fun hc => mark (by rw [hc]; decide)) fun _ => ?_
  refine .ite (fun hc => mark (by rw [hc]; decide)) fun _ => ?_
  refine .ite (fun hc => mark (by rw [hc]; decide)) fun _ => ?_
  refine .ite (fun hc => mark (by rw [hc]; decide)) fun _ => ?_
  refine .ite (fun hc => .ok ⟨['.'], cs, by rw [hc.1]; rfl, rfl, .dot hc.2⟩) fun hdot => ?_
  refine .ite (fun hc => mark (by rw [hc]; decide)) fun _ => ?_
  refine .ite (fun hc => .ok ?_) fun _ => .ite percent_found fun _ => ?_
  · subst hc
    have hform : Simple previous holes cs _ _ _ := .hole .mark (.inl (Nat.le_succ 1))
    rw [Nat.max_eq_right (Nat.le_succ holes)] at hform
    exact ⟨_, cs, rfl, rfl, hform⟩
  refine .ite (fun hc => .ok ?_) fun hnegative => .ite (operator_found · ?_) fun _ => ?_
  · obtain ⟨rfl, hopens, hstarts⟩ := hc
    obtain ⟨rest, hrest⟩ := numberRun_isPrefix false cs
    refine ⟨_, rest, by rw [cons_append, hrest], rfl, .negative hopens ?_ ?_⟩
    · rwa [hrest]
    · rw [hrest]
  · exact fun hc hopens => Bool.eq_false_iff.mpr fun hstarts => hnegative ⟨hc, hopens, hstarts⟩
  refine .ite (fun hc => .ok ?_) fun _ => .ite (fun hc => .ok ?_) fun _ => .error
  · -- a number takes at least its first character
    obtain ⟨digits, hrun⟩ : ∃ digits, numberRun false (c :: cs) = c :: digits := by
      rw [numberRun.eq_def]
      simp only
      rw [if_pos (by simpa using hc)]
      exact ⟨_, rfl⟩
    obtain ⟨rest, hrest⟩ := numberRun_isPrefix false (c :: cs)
    rw [hrun] at hrest ⊢
    obtain rfl : digits ++ rest = cs := (cons.inj hrest).2
    refine ⟨_, rest, rfl, rfl, .number (hc.imp_right fun hpoint => ⟨hpoint, ?_⟩) hrun⟩
    exact Bool.eq_true_of_not_eq_false fun h => hdot ⟨hpoint, h⟩
  · obtain ⟨rest, hcs, hends⟩ := exists_takeWhile isWordChar cs
    exact ⟨_, rest, congrArg _ hcs, rfl, .word hc (all_eq_true.mp all_takeWhile) hends⟩

end Scan

/-- The indices of the placeholders among lexemes. -/
def Lexeme.holes (lexemes : List Lexeme) : List Nat := lexemes.filterMap fun l => l.kind.hole?

theorem LexState.scan?_eq_some {s : LexState} (h : s.scan? = some x) :
    ∃ c cs, s.rest.drop s.blanks = c :: cs ∧ scan s.previous s.holes c cs = x := by
  unfold scan? at h
  split at h
  · cases h
  · rename_i c cs hcs
    exact ⟨c, cs, hcs, Option.some.inj h⟩

namespace Lexing

variable {text : List Char} {done : List Lexeme} {s : LexState}

end Lexing

end DocSql
