import DocSql.Proofs.InsignificantText
import DocSql.Proofs.LexemeSpelling
import DocSql.Proofs.Renumbering

/-! # Texts behind one another

A text keeps its lexemes where a blank stands behind it and then something that starts no word
(`LexState.reads?_append`).  Three things pass over to what stands there: how many placeholders there
were, which are counted on; whether an operand may come, which only matters to a minus sign; and that
there are blanks before it, which only matters to a parenthesis.  The number of placeholders only
matters to the indices (`LexState.reads?_unnumbered`), so that a text has the same tokens up to the
indices wherever the counting starts (`Token.exists_ofTextFrom`).
-/
namespace DocSql

open Text List

variable {lexemes : List Lexeme} {holes : Nat}

/-! ### What stands behind a text -/

/-- A blank and what starts no word take nothing from the text before them. -/
theorem alike_append {c : Char} (hc : isBlank c = false) (halpha : c.isAlpha = false)
    (text more : List Char) : Alike text (text ++ ' ' :: c :: more) := by
  intro blank
  refine ⟨_, ⟨fun hends d hd => ?_, fun d hd => ?_⟩, outline_append blank text _⟩
  · rw [hends] at hd
    cases hd
    exact .inl rfl
  · have hfirst : (outline (endsBlank blank text) (' ' :: c :: more)).dropWhile (· == ' ') =
        c.toUpper :: outline false more := by
      rw [outline_cons_of_blank rfl, outline_cons_of_not_blank hc]
      cases endsBlank blank text <;> simp [toUpper_ne_space hc]
    rw [hfirst] at hd
    cases hd
    rw [Scan.isAlpha_toUpper, halpha]

namespace Scan

/-- A percent sign that is an operator stays one where a blank is added behind it. -/
theorem HoleFree.append {text : List Char} (h : HoleFree text) (more : List Char) :
    HoleFree (text ++ ' ' :: more) :=
  (holeFree_append_cons (by decide) (by decide) text more).mpr h

end Scan

namespace LexState

/-! ### A text with more behind it -/

variable {s : LexState} {r : Scan} {c : Char}

/-- The lexeme that is next is the same one with more behind the text. -/
theorem scan?_append (h : s.scan? = some (.ok r)) (hc : isBlank c = false) (halpha : c.isAlpha = false)
    (more : List Char) :
    scan? { s with rest := s.rest ++ ' ' :: c :: more } = some (.ok r) ∧
      blanks { s with rest := s.rest ++ ' ' :: c :: more } = s.blanks ∧
      after { s with rest := s.rest ++ ' ' :: c :: more } r =
        { s.after r with rest := (s.after r).rest ++ ' ' :: c :: more } := by
  obtain ⟨-, hends, hscans⟩ := scans_piece h
  have hrest := rest_eq_piece h
  have hspells : if r.kind.isReserved then outline false (s.piece r) = outline false (s.piece r)
      else s.piece r = s.piece r := by split <;> rfl
  have hbehind (hkind : r.kind = .operator "%") :
      Scan.HoleFree ((s.after r).rest ++ ' ' :: c :: more) :=
    (hscans.of_percent hkind).append _
  obtain ⟨r', hkind, hholes, hmore, hblanks, hscan'⟩ := Respelled.scan?_step h
    (isBlank_of_mem_takeWhile s.rest) hspells hbehind (alike_append hc halpha _ more)
  have hr : r' = r := by
    rw [hends] at hmore
    obtain ⟨kind', more', holes'⟩ := r'
    obtain rfl : kind' = r.kind := hkind
    obtain rfl : holes' = r.holes := hholes
    obtain rfl : more' = r.more := Nat.succ.inj hmore
    rfl
  have htext : s.rest ++ ' ' :: c :: more = s.rest.takeWhile isBlank ++
      (s.piece r ++ ((s.after r).rest ++ ' ' :: c :: more)) := by
    conv_lhs => rw [hrest]
    simp
  rw [htext]
  refine ⟨hr ▸ hscan', hblanks, ?_⟩
  generalize (s.after r).rest ++ ' ' :: c :: more = text at hblanks ⊢
  rw [after, hblanks, ← drop_drop, drop_left, ← hends, drop_left, hends]
  rfl

section

variable {gap cs : List Char} {previous : Option LexemeKind}

theorem scan?_blanks (hgap : ∀ d ∈ gap, isBlank d = true) (hc : isBlank c = false) (position : Nat) :
    scan? ⟨position, holes, previous, gap ++ c :: cs⟩ = some (scan previous holes c cs) := by
  have hblanks : blanks ⟨position, holes, previous, gap ++ c :: cs⟩ = gap.length :=
    blanks_append rfl hgap hc
  rw [scan?, hblanks, drop_left]

/-- Behind blanks a lexeme is read, and then the text behind it. -/
theorem reads?_of_scan (hgap : ∀ d ∈ gap, isBlank d = true) (hc : isBlank c = false)
    (hscan : scan previous holes c cs = .ok r) (position : Nat) :
    reads? ⟨position, holes, previous, gap ++ c :: cs⟩ =
      (reads? ⟨0, r.holes, some r.kind, cs.drop r.more⟩).map
        (Prod.map (⟨r.kind, !gap.isEmpty, 0⟩ :: ·) id) := by
  have hblanks : blanks ⟨position, holes, previous, gap ++ c :: cs⟩ = gap.length :=
    blanks_append rfl hgap hc
  have hlexeme : (lexeme ⟨position, holes, previous, gap ++ c :: cs⟩ r).unplaced =
      ⟨r.kind, !gap.isEmpty, 0⟩ := by
    rw [lexeme, hblanks]
    cases gap <;> rfl
  have hafter : after ⟨position, holes, previous, gap ++ c :: cs⟩ r =
      ⟨position + gap.length + (r.more + 1), r.holes, some r.kind, cs.drop r.more⟩ := by
    rw [after, hblanks, ← drop_drop, drop_left, drop_succ_cons]
  rw [reads?_eq, scan?_blanks hgap hc, hscan]
  simp only [hlexeme, hafter]
  rw [← reads?_moved ⟨_, r.holes, some r.kind, cs.drop r.more⟩ 0]

/-- What is no lexeme behind blanks is not read. -/
theorem reads?_of_misscan {e : Misscan} (hgap : ∀ d ∈ gap, isBlank d = true) (hc : isBlank c = false)
    (hscan : scan previous holes c cs = .error e) (position : Nat) :
    reads? ⟨position, holes, previous, gap ++ c :: cs⟩ = none := by
  rw [reads?_eq, scan?_blanks hgap hc, hscan]

/-- How many blanks there are before a text does not matter. -/
theorem reads?_gap {gap' : List Char} (hgap : ∀ d ∈ gap, isBlank d = true)
    (hgap' : ∀ d ∈ gap', isBlank d = true) (hempty : gap'.isEmpty = gap.isEmpty)
    (hc : isBlank c = false) (position position' : Nat) :
    reads? ⟨position, holes, previous, gap ++ c :: cs⟩ =
      reads? ⟨position', holes, previous, gap' ++ c :: cs⟩ := by
  cases hscan : scan previous holes c cs with
  | error e => rw [reads?_of_misscan hgap hc hscan, reads?_of_misscan hgap' hc hscan]
  | ok r => rw [reads?_of_scan hgap hc hscan, reads?_of_scan hgap' hc hscan, hempty]

end

theorem isBlank_rest (h : s.scan? = none) : ∀ d ∈ s.rest, isBlank d = true := by
  have hall := takeWhile_append_drop s.rest
  rw [show (s.rest.takeWhile isBlank).length = s.blanks from rfl, drop_of_scan?_eq_none h,
    append_nil] at hall
  rw [← hall]
  exact isBlank_of_mem_takeWhile s.rest

/-- A text that is read is read the same way with more behind it, and then the rest. -/
theorem reads?_append (h : s.reads? = some (lexemes, holes))
    (hc : isBlank c = false) (halpha : c.isAlpha = false) (more : List Char) :
    ∃ previous, reads? { s with rest := s.rest ++ ' ' :: c :: more } =
      (reads? ⟨0, holes, previous, ' ' :: c :: more⟩).map (Prod.map (lexemes ++ ·) id) := by
  induction hn : s.rest.length using Nat.strongRecOn generalizing s lexemes with
  | ind n ih =>
    subst hn
    rw [reads?_eq] at h
    cases hscan : s.scan? with
    | none =>
      rw [hscan] at h
      cases h
      -- only blanks are left, and they are as good as one
      have hgap : ∀ d ∈ s.rest ++ [' '], isBlank d = true :=
        forall_mem_append.mpr ⟨isBlank_rest hscan, forall_mem_singleton.mpr rfl⟩
      have hshort : reads? ⟨s.position, s.holes, s.previous, (s.rest ++ [' ']) ++ c :: more⟩ =
          reads? ⟨0, s.holes, s.previous, [' '] ++ c :: more⟩ :=
        reads?_gap hgap (forall_mem_singleton.mpr rfl) (by simp) hc s.position 0
      rw [append_assoc, singleton_append] at hshort
      refine ⟨s.previous, hshort.trans ?_⟩
      cases reads? ⟨0, s.holes, s.previous, ' ' :: c :: more⟩ <;> rfl
    | some x =>
      rw [hscan] at h
      cases x with
      | error e => cases h
      | ok r =>
        obtain ⟨⟨lexemes', holes'⟩, hafter, heq⟩ := Option.map_eq_some_iff.mp h
        cases heq
        obtain ⟨hscan', hblanks, hrest⟩ := scan?_append hscan hc halpha more
        obtain ⟨previous, hreads⟩ := ih _ (length_rest_after hscan r) hafter rfl
        have hlexeme : lexeme { s with rest := s.rest ++ ' ' :: c :: more } r = s.lexeme r := by
          rw [lexeme, hblanks, lexeme]
        refine ⟨previous, ?_⟩
        rw [reads?_eq, hscan']
        simp only [hlexeme, hrest, hreads, Option.map_map]
        rfl

end LexState

/-! ### A text behind another one -/

/-- Where no operand may come, a minus sign is an operator. -/
theorem scan_minus {previous : Option LexemeKind} (h : Scan.opensOperand previous = false)
    (holes : Nat) (cs : List Char) :
    scan previous holes '-' cs = .ok ⟨.operator "-", 0, holes⟩ := by
  obtain ⟨c, p, hpiece, -, hscan⟩ := (@scans_minus cs previous holes h).scan_eq
  cases hpiece
  exact hscan

/-- Of the lexeme before it a lexeme only sees, if it starts with a minus sign, whether an operand may
come. -/
theorem scan_previous {previous previous' : Option LexemeKind} {c : Char}
    (h : Scan.opensOperand previous = Scan.opensOperand previous' ∨ c ≠ '-') (holes : Nat)
    (cs : List Char) : scan previous holes c cs = scan previous' holes c cs := by
  unfold scan
  split
  · rfl
  · rcases h with h | h
    · rw [Scan.simple, Scan.simple, h]
    · simp only [Scan.simple, h, false_and, if_false]

/-- The lexeme of an arithmetic operation. -/
def Arithmetic.lexeme : Arithmetic → LexemeKind
  | .mul => .star
  | o => .operator o.text

/-- An arithmetic operation is written with one character, which is its lexeme before a blank. -/
theorem Arithmetic.exists_sign (o : Arithmetic) : ∃ c, o.text.toList = [c] ∧ isBlank c = false ∧
    c.isAlpha = false ∧ ∀ previous holes rest,
      scan previous holes c (' ' :: rest) = .ok ⟨o.lexeme, 0, holes⟩ := by
  have of_scans {c : Char} {kind : LexemeKind} (h : ∀ previous holes rest,
      Scans previous holes [c] (' ' :: rest) kind holes) :
      ∀ previous holes rest, scan previous holes c (' ' :: rest) = .ok ⟨kind, 0, holes⟩ := by
    intro previous holes rest
    obtain ⟨d, p, hpiece, -, hscan⟩ := (h previous holes rest).scan_eq
    cases hpiece
    exact hscan
  have operator (op : String) (hop : op ∈ operatorSigns) (previous : Option LexemeKind)
      (holes : Nat) (rest : List Char) :
      Scans previous holes op.toList (' ' :: rest) (.operator op) holes :=
    scans_operator hop (show Ended (' ' :: rest) from rfl)
  cases o with
  | add => exact ⟨'+', rfl, rfl, rfl, of_scans (operator "+" (by decide))⟩
  | sub => exact ⟨'-', rfl, rfl, rfl, of_scans (operator "-" (by decide))⟩
  | mul => exact ⟨'*', rfl, rfl, rfl, of_scans fun _ _ _ => scans_mark (by decide)⟩
  | div => exact ⟨'/', rfl, rfl, rfl, of_scans (operator "/" (by decide))⟩
  | mod => exact ⟨'%', rfl, rfl, rfl, of_scans (operator "%" (by decide))⟩

namespace LexState

section

variable {text : List Char} {previous : Option LexemeKind}

theorem exists_blanks (text : List Char) : ∃ gap, (∀ d ∈ gap, isBlank d = true) ∧
    text = gap ++ text.dropWhile isBlank ∧ (text.dropWhile isBlank).head?.any isBlank = false := by
  refine ⟨text.takeWhile isBlank, isBlank_of_mem_takeWhile text, ?_, ?_⟩
  · rw [takeWhile_append_dropWhile]
  · have hhead := head?_dropWhile_not isBlank text
    cases hrest : text.dropWhile isBlank with
    | nil => rfl
    | cons c cs => simpa [hrest] using hhead

/-- A text that is read on its own is read the same way behind blanks and a lexeme behind which an
operand may come, or behind any lexeme if it does not start with a minus sign. -/
theorem reads?_behind {l : Lexeme} {holes' : Nat}
    (h : reads? ⟨0, holes, none, text⟩ = some (l :: lexemes, holes'))
    (hfirst : Scan.opensOperand previous = true ∨ (text.dropWhile isBlank).head? ≠ some '-') :
    reads? ⟨0, holes, previous, ' ' :: text⟩ =
      some ({ l with spaced := true } :: lexemes, holes') := by
  obtain ⟨gap, hgap, htext, hhead⟩ := exists_blanks text
  generalize text.dropWhile isBlank = rest at htext hhead hfirst
  subst htext
  cases rest with
  | nil =>
    have hblanks : blanks ⟨0, holes, none, gap ++ []⟩ = gap.length := blanks_append rfl hgap rfl
    have hnone : scan? ⟨0, holes, none, gap ++ []⟩ = none := by
      rw [scan?, hblanks, drop_left]
    rw [reads?_eq, hnone] at h
    cases h
  | cons c cs =>
    have hscan : scan previous holes c cs = scan none holes c cs := by
      refine scan_previous (hfirst.imp id fun hne heq => hne ?_) holes cs
      rw [heq]
      rfl
    cases hr : scan none holes c cs with
    | error e =>
      rw [reads?_of_misscan hgap hhead hr] at h
      cases h
    | ok r =>
      rw [reads?_of_scan hgap hhead hr] at h
      obtain ⟨⟨lexemes', holes''⟩, hreads, heq⟩ := Option.map_eq_some_iff.mp h
      cases heq
      have hgap' : ∀ d ∈ ' ' :: gap, isBlank d = true := forall_mem_cons.mpr ⟨rfl, hgap⟩
      rw [← cons_append, reads?_of_scan hgap' hhead (hscan.trans hr), hreads]
      rfl

/-- Where no operand may come, the minus sign that a text starts with is an operator. -/
theorem reads?_minus {cs : List Char} (hprevious : Scan.opensOperand previous = false)
    (h : text.dropWhile isBlank = '-' :: cs) :
    reads? ⟨0, holes, previous, ' ' :: text⟩ = (reads? ⟨0, holes, some (.operator "-"), cs⟩).map
        (Prod.map (⟨.operator "-", true, 0⟩ :: ·) id) := by
  obtain ⟨gap, hgap, htext, -⟩ := exists_blanks text
  rw [h] at htext
  have hgap' : ∀ d ∈ ' ' :: gap, isBlank d = true := forall_mem_cons.mpr ⟨rfl, hgap⟩
  rw [htext, ← cons_append, reads?_of_scan hgap' rfl (scan_minus hprevious holes cs)]
  rfl

end

/-- Two texts with an arithmetic operation between them are read as the lexemes of the first one, the
operation, and what the second one is read as there. -/
theorem reads?_joined {left : List Char}
    (h : (initial left).reads? = some (lexemes, holes)) (o : Arithmetic) (right : List Char) :
    (initial (left ++ ' ' :: (o.text.toList ++ ' ' :: right))).reads? =
      (reads? ⟨0, holes, some o.lexeme, ' ' :: right⟩).map
        (Prod.map (lexemes ++ ⟨o.lexeme, true, 0⟩ :: ·) id) := by
  obtain ⟨c, hsign, hblank, halpha, hscan⟩ := o.exists_sign
  rw [hsign, singleton_append]
  obtain ⟨previous, hreads⟩ := reads?_append h hblank halpha (' ' :: right)
  have hgap : ∀ d ∈ [' '], isBlank d = true := forall_mem_singleton.mpr rfl
  have hmiddle := reads?_of_scan hgap hblank (hscan previous holes right) 0
  rw [singleton_append] at hmiddle
  refine hreads.trans ?_
  rw [hmiddle, Option.map_map]
  rfl

end LexState

/-! ### Where the counting starts -/

/-- The lexeme without its index. -/
def LexemeKind.unnumbered (kind : LexemeKind) : LexemeKind := kind.renumber fun _ => 0

/-- The lexeme without its index. -/
def Lexeme.unnumbered (l : Lexeme) : Lexeme := l.renumber fun _ => 0

/-- The token without the indices of the placeholders in it. -/
def Token.unnumbered (t : Token) : Token := t.renumber fun _ => 0

theorem LexemeKind.opensOperand_of_unnumbered {kind kind' : LexemeKind}
    (h : kind'.unnumbered = kind.unnumbered) :
    Scan.opensOperand (some kind') = Scan.opensOperand (some kind) := by
  have hopens (kind : LexemeKind) :
      Scan.opensOperand (some kind.unnumbered) = Scan.opensOperand (some kind) := by
    cases kind <;> rfl
  rw [← hopens kind', h, hopens kind]

namespace Scan

/-- The two scans give lexemes of the same length that differ in their indices at most, or fail alike. -/
inductive SameUnnumbered : Except Misscan Scan → Except Misscan Scan → Prop
  | error (e : Misscan) : SameUnnumbered (.error e) (.error e)
  | ok {r r' : Scan} (kind : r'.kind.unnumbered = r.kind.unnumbered) (more : r'.more = r.more) :
    SameUnnumbered (.ok r) (.ok r')

namespace SameUnnumbered

variable {x y x' y' : Except Misscan Scan}

theorem ite {c : Prop} [Decidable c] (hpos : SameUnnumbered x y) (hneg : SameUnnumbered x' y') :
    SameUnnumbered (if c then x else x') (if c then y else y') := by
  split
  · exact hpos
  · exact hneg

end SameUnnumbered

/-- How many placeholders there are before a lexeme only matters to its index. -/
theorem simple_unnumbered (previous : Option LexemeKind) (holes holes' : Nat) (c : Char)
    (cs : List Char) :
    SameUnnumbered (simple previous holes c cs) (simple previous holes' c cs) := by
  unfold simple
  refine .ite (.ite (.ok rfl rfl) (.error _)) (.ite ?_ ?_)
  · unfold string
    split
    · exact .ok rfl rfl
    · exact .error _
  refine .ite (.ok rfl rfl) (.ite (.ok rfl rfl) (.ite (.ok rfl rfl) (.ite (.ok rfl rfl) ?_)))
  refine .ite (.ok rfl rfl) (.ite (.ok rfl rfl) (.ite (.ok rfl rfl) (.ite ?_ ?_)))
  · unfold percent
    refine .ite (.ok rfl rfl) ?_
    split
    · exact .ite (.ok rfl rfl) (.error _)
    · exact .ok rfl rfl
  refine .ite (.ok rfl rfl) (.ite (.ite (.ok rfl rfl) (.ite (.error _) (.ok rfl rfl))) ?_)
  exact .ite (.ok rfl rfl) (.ite (.ok rfl rfl) (.error _))

end Scan

theorem scan_unnumbered {previous previous' : Option LexemeKind}
    (h : Scan.opensOperand previous' = Scan.opensOperand previous) (holes holes' : Nat) (c : Char)
    (cs : List Char) :
    Scan.SameUnnumbered (scan previous holes c cs) (scan previous' holes' c cs) := by
  rw [scan_previous (.inl h) holes']
  unfold scan
  split
  · exact .ok rfl rfl
  · exact Scan.simple_unnumbered previous holes holes' c cs

namespace LexState

/-- How many placeholders there are before a text only matters to the indices of its placeholders. -/
theorem reads?_unnumbered {s s' : LexState} (hrest : s'.rest = s.rest)
    (hprevious : Scan.opensOperand s'.previous = Scan.opensOperand s.previous)
    (h : s.reads? = some (lexemes, holes)) :
    ∃ lexemes' holes', s'.reads? = some (lexemes', holes') ∧
      lexemes'.map Lexeme.unnumbered = lexemes.map Lexeme.unnumbered := by
  induction hn : s.rest.length using Nat.strongRecOn generalizing s s' lexemes with
  | ind n ih =>
    subst hn
    have hblanks : s'.blanks = s.blanks := by rw [blanks, blanks, hrest]
    rw [reads?_eq] at h
    cases hdrop : s.rest.drop s.blanks with
    | nil =>
      have hnone : s.scan? = none := by rw [scan?, hdrop]
      have hnone' : s'.scan? = none := by rw [scan?, hblanks, hrest, hdrop]
      rw [hnone] at h
      cases h
      exact ⟨[], s'.holes, by rw [reads?_eq, hnone'], rfl⟩
    | cons c cs =>
      have hsome : s.scan? = some (scan s.previous s.holes c cs) := by rw [scan?, hdrop]
      have hsome' : s'.scan? = some (scan s'.previous s'.holes c cs) := by
        rw [scan?, hblanks, hrest, hdrop]
      have hsame := scan_unnumbered hprevious s.holes s'.holes c cs
      generalize scan s.previous s.holes c cs = x at hsome hsame
      generalize scan s'.previous s'.holes c cs = x' at hsome' hsame
      rw [hsome] at h
      cases hsame with
      | error e => cases h
      | @ok r r' hkind hmore =>
        obtain ⟨⟨lexemes₀, holes₀⟩, hafter, heq⟩ := Option.map_eq_some_iff.mp h
        cases heq
        have hrest' : (s'.after r').rest = (s.after r).rest := by
          rw [after, after, hblanks, hrest, hmore]
        obtain ⟨lexemes', holes', hreads, hlexemes⟩ := ih _ (length_rest_after hsome r) hrest'
          (LexemeKind.opensOperand_of_unnumbered hkind) hafter rfl
        refine ⟨(s'.lexeme r').unplaced :: lexemes', holes', ?_, ?_⟩
        · rw [reads?_eq, hsome']
          simp only [hreads]
          rfl
        · have hlexeme : (s'.lexeme r').unplaced.unnumbered = (s.lexeme r).unplaced.unnumbered := by
            simp only [lexeme, Lexeme.unplaced, Lexeme.unnumbered, Lexeme.renumber, hblanks]
            exact congrArg (Lexeme.mk · _ _) hkind
          rw [map_cons, map_cons, hlexeme, hlexemes]

end LexState

namespace Token

/-- Lexemes that differ in their indices only are put together to such tokens. -/
theorem exists_group_of_unnumbered {lexemes' : List Lexeme} {tokens : List Token}
    (h : lexemes'.map Lexeme.unnumbered = lexemes.map Lexeme.unnumbered)
    (hgroup : group lexemes = .ok tokens) :
    ∃ tokens', group lexemes' = .ok tokens' ∧ tokens'.map unnumbered = tokens.map unnumbered := by
  have hsame : map unnumbered <$> group lexemes' = map unnumbered <$> group lexemes :=
    (group_renumber lexemes').symm.trans ((congrArg group h).trans (group_renumber lexemes))
  rw [hgroup] at hsame
  exact Compiled.map_eq_ok.mp hsame

/-- A text has the same tokens up to their indices wherever the counting of its placeholders starts. -/
theorem exists_ofTextFrom {sql : String} {holes count : Nat} {tokens : List Token}
    (h : ofTextFrom holes sql = .ok (tokens, count)) (holes' : Nat) :
    ∃ tokens' count', ofTextFrom holes' sql = .ok (tokens', count') ∧
      tokens'.map unnumbered = tokens.map unnumbered := by
  obtain ⟨lexemes, hreads, hgroup⟩ := ofTextFrom_eq_ok.mp h
  obtain ⟨lexemes', count', hreads', hlexemes⟩ := @LexState.reads?_unnumbered
    _ _ ⟨0, holes, none, sql.toList⟩ ⟨0, holes', none, sql.toList⟩ rfl rfl hreads
  obtain ⟨tokens', hgroup', htokens⟩ := exists_group_of_unnumbered hlexemes hgroup
  exact ⟨tokens', count', ofTextFrom_eq_ok.mpr ⟨lexemes', hreads', hgroup'⟩, htokens⟩

end Token

end DocSql
