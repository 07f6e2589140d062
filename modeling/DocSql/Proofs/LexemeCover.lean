import DocSql.Proofs.Respelling

/-! # The lexemes cover the text

The division of a text goes on lexeme by lexeme and skips nothing but blanks.  A lexeme takes the
characters that it is written with (`Scans`): at least one, and the last of them no blank.  So the
stretches that the lexemes take lie one behind another with only blanks between them
(`PlacedLexeme.Tile`), and the blanks right before a lexeme are those that were skipped.  `lex_covers`
draws the conclusions for the whole text.
-/
namespace DocSql

open Text List

/-! ### The last character of a lexeme -/

section

variable {piece rest : List Char} {kind : LexemeKind}
variable {previous : Option LexemeKind} {holes next : Nat} {c : Char}

theorem last_not_blank_of_forall (hne : piece ≠ []) (h : ∀ c ∈ piece, isBlank c = false) :
    ∃ c ∈ piece.getLast?, isBlank c = false :=
  ⟨piece.getLast hne, getLast?_eq_some_getLast hne, h _ (getLast_mem hne)⟩

namespace Scan

theorem numberRun_not_blank (exponent : Bool) (text : List Char) :
    ∀ c ∈ numberRun exponent text, isBlank c = false := by
  have hblank {exponent : Bool} {c : Char} (h : continuesNumber exponent c = true) :
      isBlank c = false := (stops_continuesNumber exponent).not_blank h
  fun_induction numberRun exponent text with
  | case1 | case6 => exact forall_mem_nil _
  | case2 exponent c cs hc ih =>
    exact forall_mem_cons.mpr ⟨@hblank exponent c (by simp [continuesNumber, hc]), ih⟩
  | case3 exponent c hc he =>
    exact forall_mem_singleton.mpr (@hblank exponent c (by simp [continuesNumber, he]))
  | case4 exponent c hc he s rest hs ih =>
    refine forall_mem_cons.mpr ⟨@hblank exponent c (by simp [continuesNumber, he]), ?_⟩
    exact forall_mem_cons.mpr ⟨stops_isSign.not_blank hs, ih⟩
  | case5 exponent c hc he s rest hs ih =>
    exact forall_mem_cons.mpr ⟨@hblank exponent c (by simp [continuesNumber, he]), ih⟩

theorem Simple.last_not_blank (h : Simple previous holes rest piece kind next) :
    ∃ c ∈ piece.getLast?, isBlank c = false := by
  have hmarks : ∀ e ∈ marks, isBlank e.1 = false := by decide
  have hsigns : ∀ op ∈ operatorSigns, op.toList ≠ [] ∧ op.toList.all (!isBlank ·) = true := by
    decide
  cases h with
  | @quoted quote _ mark =>
    refine ⟨quote, by simp [getLast?_cons], ?_⟩
    rcases mark with rfl | rfl <;> rfl
  | string => exact ⟨'\x27', by simp [getLast?_cons], rfl⟩
  | @mark c _ mem => exact ⟨c, rfl, hmarks _ mem⟩
  | dot | percent => exact ⟨_, rfl, rfl⟩
  | hole spells =>
    cases spells with
    | mark | percent => exact ⟨_, rfl, rfl⟩
    | numbered => exact ⟨'s', by simp [getLast?_cons], rfl⟩
  | operator mem =>
    obtain ⟨hne, hsign⟩ := hsigns _ mem
    exact last_not_blank_of_forall hne fun c hc => by simpa using all_eq_true.mp hsign c hc
  | negative _ _ run =>
    refine last_not_blank_of_forall (cons_ne_nil _ _) (forall_mem_cons.mpr ⟨rfl, ?_⟩)
    rw [← run]
    exact numberRun_not_blank false _
  | number _ run =>
    refine last_not_blank_of_forall (cons_ne_nil _ _) ?_
    rw [← run]
    exact numberRun_not_blank false _
  | word starts chars =>
    refine last_not_blank_of_forall (cons_ne_nil _ _) (forall_mem_cons.mpr ⟨?_, fun d hd => ?_⟩)
    · exact stops_isWordChar.not_blank (isWordChar_of_isLetter starts)
    · exact stops_isWordChar.not_blank (chars d hd)

end Scan

/-- A lexeme does not end with a blank. -/
theorem Scans.last_not_blank (h : Scans previous holes piece rest kind next) :
    ∃ c ∈ piece.getLast?, isBlank c = false := by
  cases h with
  | simple _ form => exact form.last_not_blank
  | compound mem spelled =>
    obtain ⟨d, p, hpiece, -⟩ := exists_cons_of_compound mem spelled
    obtain ⟨c, hc⟩ := Option.isSome_iff_exists.mp (getLast?_isSome.mpr (hpiece ▸ cons_ne_nil d p))
    refine ⟨c, hc, ?_⟩
    -- the spelling ends with the last letter of the keyword
    have hends : endsBlank false piece = false := by
      rw [endsBlank_eq, spelled]
      cases hlast : (Text.uppercase _).getLast? with
      | none => rfl
      | some w => simpa using (worded_compounds _ mem).last w hlast
    obtain ⟨init, rfl⟩ := getLast?_eq_some_iff.mp hc
    rwa [endsBlank_append] at hends

end

/-! ### Runs -/

/-- A lexeme with the position behind it. -/
structure PlacedLexeme extends Lexeme where
  stop : Nat

namespace LexState

/-- The lexeme that is next, with the position behind it. -/
def placed (s : LexState) (r : Scan) : PlacedLexeme where
  toLexeme := s.lexeme r
  stop := (s.after r).position

/-- The lexemes from a state on with the positions behind them, and the state in which no lexeme is
next. -/
def run (s : LexState) : List PlacedLexeme × LexState :=
  match _h : s.scan? with
  | some (.ok r) => (s.placed r :: (s.after r).run.1, (s.after r).run.2)
  | _ => ([], s)
termination_by s.rest.length
decreasing_by all_goals exact s.length_rest_after _h r

/-- A run stops at the end of the text or at what is no lexeme. -/
theorem scan?_run (s : LexState) (r : Scan) : s.run.2.scan? ≠ some (.ok r) := by
  fun_induction run s with
  | case1 s r' h ih => exact ih
  | case2 s h => exact h r

end LexState

namespace Lexing

variable {text : List Char} {done : List Lexeme} {s : LexState} {r : Scan}

/-- The lexemes of a run are those of the division. -/
theorem run (h : Lexing text done s) : Lexing text (done ++ s.run.1.map (·.toLexeme)) s.run.2 := by
  fun_induction LexState.run s generalizing done with
  | case1 s r hscan ih =>
    have hrest := ih (h.step hscan)
    simpa [LexState.placed] using hrest
  | case2 s _ => simpa using h

/-- A run is inside the text. -/
theorem position_le (h : Lexing text done s) : s.position ≤ text.length := by
  induction h with
  | start => exact Nat.zero_le _
  | @step done s r before hscan ih =>
    obtain ⟨hdrop, hpiece, -⟩ := LexState.scans_piece hscan
    have hlength := congrArg length hdrop
    rw [before.rest_eq, drop_drop, length_drop, length_append, hpiece] at hlength
    show s.position + s.blanks + (r.more + 1) ≤ text.length
    omega

end Lexing

/-! ### Stretches of the text -/

namespace PlacedLexeme

/-- The lexeme is the first one from a place of the text on: only blanks stand between, it takes at
least one character, it is written with the characters that it takes, and it says whether there are
blanks. -/
structure Follows (text : List Char) (i : Nat) (p : PlacedLexeme) : Prop where
  le_start : i ≤ p.start
  blanks : ∀ k c, i ≤ k → k < p.start → text[k]? = some c → isBlank c = true
  start_lt : p.start < p.stop
  stop_le : p.stop ≤ text.length
  written : ∃ previous holes next,
    Scans previous holes ((text.drop p.start).take (p.stop - p.start)) (text.drop p.stop) p.kind next
  spaced_iff : p.spaced = true ↔ i < p.start

/-- Lexemes that follow one another from a place on, and the place behind the last one. -/
def Tile (text : List Char) : Nat → List PlacedLexeme → Nat → Prop
  | i, [], j => i = j
  | i, p :: ps, j => p.Follows text i ∧ Tile text p.stop ps j

end PlacedLexeme

namespace Lexing

variable {text : List Char} {done : List Lexeme} {s : LexState} {r : Scan}

/-- Before a state's next lexeme there are only blanks. -/
theorem isBlank_of_lt (h : Lexing text done s) {k : Nat} (hle : s.position ≤ k)
    (hlt : k < s.position + s.blanks) (hc : text[k]? = some c) : isBlank c = true := by
  refine isBlank_of_mem_takeWhile s.rest c ?_
  have hget : (s.rest.takeWhile isBlank)[k - s.position]? = some c := by
    have hrest : s.rest[k - s.position]? = some c := by
      rw [h.rest_eq, getElem?_drop, Nat.add_sub_cancel' hle, hc]
    rw [← takeWhile_append_drop s.rest,
      getElem?_append_left (by unfold LexState.blanks at hlt; omega)] at hrest
    exact hrest
  exact mem_of_getElem? hget

theorem follows (h : Lexing text done s) (hscan : s.scan? = some (.ok r)) :
    (s.placed r).Follows text s.position where
  le_start := Nat.le_add_right _ _
  blanks _ _ hle hlt hc := h.isBlank_of_lt hle hlt hc
  start_lt := Nat.lt_add_of_pos_right (Nat.succ_pos _)
  stop_le := (h.step hscan).position_le
  written := by
    have htext : text.drop (s.placed r).start = s.rest.drop s.blanks := by
      rw [h.rest_eq, drop_drop]
      rfl
    have hlength : (s.placed r).stop - (s.placed r).start = r.more + 1 :=
      Nat.add_sub_cancel_left _ _
    have hscans := (LexState.scans_piece hscan).2.2
    rw [(h.step hscan).rest_eq] at hscans
    rw [htext, hlength]
    exact ⟨_, _, _, hscans⟩
  spaced_iff := by
    show decide (0 < s.blanks) = true ↔ s.position < s.position + s.blanks
    rw [decide_eq_true_iff]
    omega

/-- The lexemes of a run follow one another. -/
theorem tile_run (h : Lexing text done s) :
    PlacedLexeme.Tile text s.position s.run.1 s.run.2.position := by
  fun_induction LexState.run s generalizing done with
  | case1 s r hscan ih => exact ⟨h.follows hscan, ih (h.step hscan)⟩
  | case2 s _ => rfl

end Lexing

namespace PlacedLexeme

variable {text : List Char} {i j : Nat} {p : PlacedLexeme} {ps : List PlacedLexeme}

/-- The character before the end of a lexeme is no blank. -/
theorem Follows.last_not_blank (h : p.Follows text i) (hc : text[p.stop - 1]? = some c) :
    isBlank c = false := by
  obtain ⟨_, _, _, hscans⟩ := h.written
  obtain ⟨d, hd, hsolid⟩ := hscans.last_not_blank
  have hstart := h.start_lt
  have hstop := h.stop_le
  rw [Option.mem_def, getLast?_eq_getElem?, length_take_of_le (by rw [length_drop]; omega),
    getElem?_take_of_lt (by omega), getElem?_drop] at hd
  have hplace : p.start + (p.stop - p.start - 1) = p.stop - 1 := by omega
  rw [hplace, hc] at hd
  rw [Option.some.inj hd, hsolid]

theorem Tile.le (h : Tile text i ps j) : i + ps.length ≤ j := by
  induction ps generalizing i with
  | nil => exact h.le
  | cons p ps ih =>
    obtain ⟨hp, hps⟩ := h
    have := ih hps
    have := hp.le_start
    have := hp.start_lt
    rw [length_cons]
    omega

theorem Tile.start_ge (h : Tile text i ps j) (hp : p ∈ ps) : i ≤ p.start := by
  induction ps generalizing i with
  | nil => cases hp
  | cons q ps ih =>
    obtain ⟨hq, hps⟩ := h
    rcases mem_cons.mp hp with rfl | hp
    · exact hq.le_start
    · exact (hq.le_start.trans hq.start_lt.le).trans (ih hps hp)

/-- The stretches of the lexemes are in order, and no two of them meet. -/
theorem Tile.pairwise (h : Tile text i ps j) :
    ps.Pairwise fun p q => p.start < q.start ∧ p.stop ≤ q.start := by
  induction ps generalizing i with
  | nil => exact .nil
  | cons p ps ih =>
    obtain ⟨hp, hps⟩ := h
    refine .cons (fun q hq => ?_) (ih hps)
    have hstop := hps.start_ge hq
    exact ⟨hp.start_lt.trans_le hstop, hstop⟩

/-- What is in no stretch is blank. -/
theorem Tile.isBlank (h : Tile text i ps j) {k : Nat} (hle : i ≤ k) (hlt : k < j)
    (hc : text[k]? = some c) (houtside : ∀ p ∈ ps, ¬(p.start ≤ k ∧ k < p.stop)) :
    isBlank c = true := by
  induction ps generalizing i with
  | nil =>
    obtain rfl : i = j := h
    omega
  | cons p ps ih =>
    obtain ⟨hp, hps⟩ := h
    obtain ⟨hnot, houtside⟩ := forall_mem_cons.mp houtside
    by_cases hbefore : k < p.start
    · exact hp.blanks k c hle hbefore hc
    · exact ih hps (by omega) houtside

/-- Each lexeme follows the place where the one before it ends, behind which there is no blank. -/
theorem Tile.follows (h : Tile text i ps j)
    (hbefore : ∀ c, 0 < i → text[i - 1]? = some c → Text.isBlank c = false) (hp : p ∈ ps) :
    ∃ k, p.Follows text k ∧ ∀ c, 0 < k → text[k - 1]? = some c → Text.isBlank c = false := by
  induction ps generalizing i with
  | nil => cases hp
  | cons q ps ih =>
    obtain ⟨hq, hps⟩ := h
    rcases mem_cons.mp hp with rfl | hp
    · exact ⟨i, hq, hbefore⟩
    · exact ih hps (fun c _ hc => hq.last_not_blank hc) hp

/-- A lexeme is spaced exactly if the character before it is a blank. -/
theorem Follows.spaced_eq (h : p.Follows text i)
    (hbefore : ∀ c, 0 < i → text[i - 1]? = some c → Text.isBlank c = false) :
    p.spaced = true ↔ 0 < p.start ∧ ∃ c ∈ text[p.start - 1]?, Text.isBlank c = true := by
  rw [h.spaced_iff]
  have hinside := h.start_lt.trans_le h.stop_le
  constructor
  · intro hlt
    have hlast : p.start - 1 < text.length := by omega
    refine ⟨by omega, _, getElem?_eq_getElem hlast, ?_⟩
    exact h.blanks (p.start - 1) _ (by omega) (by omega) (getElem?_eq_getElem hlast)
  · rintro ⟨hpos, c, hc, hblank⟩
    refine Nat.lt_of_le_of_ne h.le_start fun heq => ?_
    subst heq
    rw [hbefore c hpos hc] at hblank
    cases hblank

end PlacedLexeme

/-! ### The whole text -/

namespace Lexing

variable {text : List Char} {done : List Lexeme} {s : LexState}

/-- Where a run stops, the text has been divided or is refused. -/
theorem lex_of_stop (h : Lexing text done s) (hstop : ∀ r, s.scan? ≠ some (.ok r)) :
    (s.scan? = none ∧ (LexState.initial text).lex = .ok (done, s.holes)) ∨
      ∃ e, s.scan? = some (.error e) ∧ (LexState.initial text).lex = .error (s.refusal e) := by
  rw [h.lex_eq, s.lex_eq]
  cases hscan : s.scan? with
  | none =>
    refine .inl ⟨rfl, ?_⟩
    show Except.ok (done ++ [], s.holes) = _
    rw [append_nil]
  | some x =>
    cases x with
    | error e => exact .inr ⟨e, rfl, rfl⟩
    | ok r => exact absurd hscan (hstop r)

/-- Behind the last lexeme of a text that has been divided there are only blanks. -/
theorem isBlank_of_end (h : Lexing text done s) (hend : s.scan? = none) {k : Nat}
    (hle : s.position ≤ k) (hc : text[k]? = some c) : isBlank c = true := by
  refine h.isBlank_of_lt hle ?_ hc
  have hlength := congrArg length (LexState.drop_of_scan?_eq_none hend)
  rw [h.rest_eq, drop_drop, length_drop, length_nil] at hlength
  have hlt := (List.getElem?_eq_some_iff.mp hc).1
  omega

end Lexing

/-- The division of a text ends, after at most as many lexemes as there are characters, with the
lexemes or with the refusal of what stands behind them.  Each step goes on by a character or more
and stays inside the text.  The stretches from the starts of the lexemes to the positions behind
them are in order and do not meet, each of them holds what its lexeme is written with, which is
spaced exactly if a blank stands right before it, and of a text that is not refused everything else
is blank. -/
theorem lex_covers (sql : String) : ∃ placed last,
    (LexState.initial sql.toList).run = (placed, last) ∧
    Lexing sql.toList (placed.map (·.toLexeme)) last ∧ placed.length ≤ sql.toList.length ∧
    (last.scan? = none ∧ lex sql = .ok (placed.map (·.toLexeme), last.holes) ∨
      ∃ e, last.scan? = some (.error e) ∧ lex sql = .error (last.refusal e)) ∧
    (∀ done s r, Lexing sql.toList done s → s.scan? = some (.ok r) →
      (s.lexeme r).start < (s.after r).position ∧ (s.after r).position ≤ sql.toList.length) ∧
    (placed.Pairwise fun p q => p.start < q.start ∧ p.stop ≤ q.start) ∧
    (∀ p ∈ placed, p.start < p.stop ∧ p.stop ≤ sql.toList.length ∧
      (∃ previous holes next, Scans previous holes ((sql.toList.drop p.start).take (p.stop - p.start))
        (sql.toList.drop p.stop) p.kind next) ∧
      (p.spaced = true ↔ 0 < p.start ∧ ∃ c ∈ sql.toList[p.start - 1]?, isBlank c = true)) ∧
    (last.scan? = none → ∀ i c, sql.toList[i]? = some c →
      (∀ p ∈ placed, ¬(p.start ≤ i ∧ i < p.stop)) → isBlank c = true) := by
  have hstart : Lexing sql.toList [] (.initial sql.toList) := .start
  have hrun := hstart.run
  rw [List.nil_append] at hrun
  have htile := hstart.tile_run
  refine ⟨_, _, rfl, hrun, ?_, hrun.lex_of_stop (LexState.scan?_run _), ?_, htile.pairwise, ?_, ?_⟩
  · have hlength := htile.le
    have hposition := hrun.position_le
    rw [show (LexState.initial sql.toList).position = 0 from rfl] at hlength
    omega
  · intro done s r hs hscan
    have hfollows := hs.follows hscan
    exact ⟨hfollows.start_lt, hfollows.stop_le⟩
  · intro p hp
    obtain ⟨i, hfollows, hbefore⟩ := htile.follows (fun c hpos => absurd hpos (Nat.lt_irrefl 0)) hp
    exact ⟨hfollows.start_lt, hfollows.stop_le, hfollows.written, hfollows.spaced_eq hbefore⟩
  · intro hend i c hc houtside
    by_cases hlt : i < (LexState.initial sql.toList).run.2.position
    · exact htile.isBlank (Nat.zero_le _) hlt hc houtside
    · exact hrun.isBlank_of_end hend (Nat.le_of_not_lt hlt) hc

end DocSql
