import DocSql.Proofs.TextOutline

/-! # Respelled texts

A text is respelled by exchanging its blanks for others, changing the case of its reserved words and
adding blanks and semicolons at its end; `Respelled` says so along the division into lexemes.  A lexeme
ends where the text behind it has a character of another class, and these classes do not tell a text
from one that is like it (`scan_alike`); a reserved word, or a compound of such words, is found in any
spelling (`scan_respelled`).
-/
namespace DocSql

open Text List

variable {cs text : List Char} {c : Char} {r : Scan}

namespace Scan

variable {p rest rest' : List Char}
variable {q : Char → Bool}

/-! ### Where lexemes end -/

theorem stops_isDigit : Stops Char.isDigit := .of_all (by decide) (by decide) rfl

set_option maxRecDepth 8000 in
theorem stops_isWordChar : Stops isWordChar := .of_all (by decide) (by decide +kernel) rfl

theorem startsDigit_eq (text : List Char) : startsDigit text = text.head?.any Char.isDigit := by
  cases text <;> rfl

theorem startsDigit_alike (h : EndsAlike rest rest') (p : List Char) :
    startsDigit (p ++ rest') = startsDigit (p ++ rest) := by
  cases p with
  | nil => rw [nil_append, nil_append, startsDigit_eq, startsDigit_eq, h _ stops_isDigit]
  | cons c p => rfl

/-- Whether a number goes on with the character. -/
def continuesNumber (exponent : Bool) (c : Char) : Bool :=
  (c.isDigit || c = '.') || ((c = 'e' || c = 'E') && !exponent)

theorem stops_continuesNumber (exponent : Bool) : Stops (continuesNumber exponent) := by
  cases exponent <;> exact .of_all (by decide) (by decide) rfl

theorem numberRun_eq_nil_iff {exponent : Bool} : numberRun exponent rest = [] ↔
    rest.head?.any (continuesNumber exponent) = false := by
  cases rest with
  | nil => simp [numberRun]
  | cons c cs =>
    rw [numberRun.eq_def]
    simp only [head?_cons, Option.any_some, continuesNumber]
    split
    · rename_i hc
      simp [hc]
    · rename_i hc
      split
      · rename_i he
        rw [he]
        cases cs with
        | nil => simp
        | cons s cs =>
          simp only
          split <;> simp
      · rename_i he
        simp [hc, he]

/-- Whether the character is the sign of an exponent. -/
def isSign (c : Char) : Bool := c = '+' || c = '-'

theorem stops_isSign : Stops isSign := .of_all (by decide) (by decide) rfl

/-- A number that ends before a text ends before every text like it. -/
theorem numberRun_alike (h : EndsAlike rest rest') : ∀ (exponent : Bool) (p : List Char),
    numberRun exponent (p ++ rest) = p → numberRun exponent (p ++ rest') = p
  | exponent, [], hrun => by
    rw [nil_append, numberRun_eq_nil_iff] at hrun ⊢
    rw [h _ (stops_continuesNumber exponent), hrun]
  | exponent, c :: p, hrun => by
    rw [cons_append, numberRun.eq_def] at hrun ⊢
    simp only at hrun ⊢
    split at hrun
    · rename_i hc
      rw [if_pos hc, numberRun_alike h exponent p (cons.inj hrun).2]
    · rename_i hc
      rw [if_neg hc]
      split at hrun
      · rename_i he
        rw [if_pos he]
        cases p with
        | nil =>
          -- the number ends with the mark of its exponent, and neither a sign nor a digit comes next
          have hends : rest.head?.any isSign = false ∧ numberRun true rest = [] := by
            cases rest with
            | nil => exact ⟨rfl, rfl⟩
            | cons s rest =>
              simp only [nil_append] at hrun
              split at hrun
              · cases hrun
              · rename_i hs
                exact ⟨Bool.eq_false_iff.mpr hs, (cons.inj hrun).2⟩
          have hends' := numberRun_alike h true [] hends.2
          have hsign := (h _ stops_isSign).trans hends.1
          cases rest' with
          | nil => rfl
          | cons s rest' =>
            simp only [nil_append] at hends' ⊢
            change isSign s = false at hsign
            rw [isSign] at hsign
            rw [hsign, hends']
            rfl
        | cons s p =>
          simp only [cons_append] at hrun ⊢
          split at hrun
          · rename_i hs
            rw [if_pos hs, numberRun_alike h true p (cons.inj (cons.inj hrun).2).2]
          · rename_i hs
            have hrest := numberRun_alike h true (s :: p) (cons.inj hrun).2
            rw [if_neg hs]
            exact congrArg _ hrest
      · cases hrun

theorem stops_quote : Stops (· == '\x27') := .of_all (by decide) (by decide) rfl

theorem stops_continuesOperator {op : String} (hop : op ∈ operatorSigns) :
    Stops (continuesOperator op) := by
  simp only [operatorSigns, mem_cons, not_mem_nil, or_false] at hop
  rcases hop with rfl | rfl | rfl | rfl | rfl | rfl | rfl | rfl | rfl | rfl | rfl | rfl <;>
    exact .of_all (by decide) (by decide) rfl

/-! ### Lexemes before texts that are alike -/

section

variable {previous : Option LexemeKind} {holes next : Nat} {kind : LexemeKind} {piece : List Char}

/-- A lexeme does not change if the text behind it is exchanged for one like it; behind a percent sign
that is an operator no placeholder may come up. -/
theorem Simple.alike (hform : Simple previous holes rest piece kind next) (h : EndsAlike rest rest')
    (hfree : kind = .operator "%" → HoleFree rest') : Simple previous holes rest' piece kind next := by
  cases hform with
  | quoted mark free => exact .quoted mark free
  | string ends => exact .string ((h _ stops_quote).trans ends)
  | mark mem => exact .mark mem
  | dot ends => exact .dot ((startsDigit_alike h []).trans ends)
  | hole spells fits => exact .hole spells fits
  | percent => exact .percent (hfree rfl)
  | operator mem ne ends minus =>
    refine .operator mem ne ((h _ (stops_continuesOperator mem)).trans ends) fun hop hopens => ?_
    exact (startsDigit_alike h []).trans (minus hop hopens)
  | @negative digits opens starts run =>
    exact .negative opens ((startsDigit_alike h digits).trans starts) (numberRun_alike h false _ run)
  | @number c digits starts run =>
    refine .number (starts.imp_right fun hpoint => ⟨hpoint.1, ?_⟩)
      (numberRun_alike h false (c :: digits) run)
    exact (startsDigit_alike h digits).trans hpoint.2
  | word starts chars ends => exact .word starts chars ((h _ stops_isWordChar).trans ends)

/-- A run of characters of a class ends before a text that starts with none of them. -/
theorem takeWhile_append_eq_iff : (p ++ rest).takeWhile q = p ↔
    (∀ c ∈ p, q c = true) ∧ rest.head?.any q = false := by
  have hnil : rest.takeWhile q = [] ↔ rest.head?.any q = false := by
    cases rest with
    | nil => simp
    | cons c cs => cases hc : q c <;> simp [hc]
  constructor
  · intro hp
    have hall : ∀ c ∈ p, q c = true := by
      rw [← hp]
      exact all_eq_true.mp all_takeWhile
    rw [takeWhile_append_of_pos hall] at hp
    exact ⟨hall, hnil.mp (by simpa using hp)⟩
  · rintro ⟨hall, hrest⟩
    rw [takeWhile_append_of_pos hall, hnil.mpr hrest, append_nil]

theorem isWordChar_of_isLetter (h : Text.isLetter c = true ∨ c = '_') : isWordChar c = true := by
  rcases h with h | rfl
  · simp [isWordChar, Text.isLetterOrNumber, h]
  · rfl

/-- A text with its quotes doubled is read up to the closing one. -/
theorem stringRun_append (hrest : rest.head?.any (· == '\x27') = false) :
    stringRun (doubled text ++ '\x27' :: rest) = some (text, (doubled text).length + 1) := by
  induction text with
  | nil =>
    cases rest with
    | nil => rfl
    | cons d rest =>
      have hd : d ≠ '\x27' := by simpa using hrest
      simp [doubled, stringRun, hd]
  | cons c text ih =>
    have hdoubled : doubled (c :: text) = (if c = '\x27' then [c, c] else [c]) ++ doubled text := rfl
    rw [hdoubled]
    by_cases hc : c = '\x27'
    · subst hc
      simp [stringRun, ih]
    · rw [if_neg hc, singleton_append, cons_append, stringRun.eq_def]
      simp [hc, ih]

/-- No digit starts a word. -/
theorem not_isLetter_of_isDigit (h : c.isDigit = true) : Text.isLetter c = false ∧ c ≠ '_' := by
  simp only [Char.isDigit, Bool.and_eq_true, decide_eq_true_eq, ge_iff_le,
    UInt32.le_iff_toNat_le] at h
  have hlow : 48 ≤ c.toNat := h.1
  have hhigh : c.toNat ≤ 57 := h.2
  have hmem : c.toNat ∈ range' 48 10 := mem_range'_1.mpr ⟨hlow, by omega⟩
  have hall : ((range' 48 10).all fun n =>
    !Text.isLetter (Char.ofNat n) && Char.ofNat n != '_') = true := by decide
  have hc := all_eq_true.mp hall _ hmem
  simpa using hc

/-- The characters that start neither a number nor a word. -/
def signs : List Char :=
  ['\x22', '\x60', '\x27', '(', ')', ',', ';', '*', '?', '%', '-', '<', '>', '!', '=', '+', '/', '|']

theorem simple_of_not_sign (hc : c ∉ signs) : simple previous holes c cs =
    if c = '.' ∧ startsDigit cs = false then .ok ⟨.dot, 0, holes⟩
    else if c.isDigit ∨ c = '.' then
      .ok ⟨.number (String.ofList (numberRun false (c :: cs))),
        (numberRun false (c :: cs)).length - 1, holes⟩
    else if Text.isLetter c ∨ c = '_' then
      .ok ⟨ofWord (String.ofList (c :: cs.takeWhile isWordChar)), (cs.takeWhile isWordChar).length,
        holes⟩
    else .error ⟨.unexpectedCharacter, 0⟩ := by
  simp only [signs, mem_cons, not_mem_nil, not_or] at hc
  simp [simple, hc]

/-- An operator of one character, where it does not go on. -/
theorem operator_single (hc : c ≠ '!' ∧ c ≠ '|')
    (hends : rest.head?.any (continuesOperator (String.singleton c)) = false) :
    operator holes c rest = .ok ⟨.operator (String.singleton c), 0, holes⟩ := by
  rw [operator, if_neg, if_neg (by simpa using hc)]
  intro htwo
  cases rest with
  | nil => simp [← String.toList_inj] at htwo
  | cons d rest =>
    have hlong : (String.singleton c).push d ∈ longOperators := by simpa [longOperators] using htwo
    simp [continuesOperator, hlong] at hends

/-- The characters that a lexeme is written with are read as that lexeme. -/
theorem exists_simple_eq (h : Simple previous holes rest piece kind next) :
    ∃ c p, piece = c :: p ∧ isBlank c = false ∧
      simple previous holes c (p ++ rest) = .ok ⟨kind, p.length, next⟩ := by
  cases h with
  | @quoted quote text mark free =>
    have hrun : (text ++ quote :: rest).takeWhile (· ≠ quote) = text := by
      refine takeWhile_append_eq_iff.mpr ⟨fun c hc => ?_, by simp⟩
      have hne : c ≠ quote := fun heq => free (heq ▸ hc)
      simpa using hne
    refine ⟨quote, _, rfl, by rcases mark with rfl | rfl <;> rfl, ?_⟩
    rw [simple, if_pos mark, quoted]
    simp only [append_assoc, singleton_append, hrun]
    rw [if_pos (by simp)]
    simp
  | string ends =>
    refine ⟨_, _, rfl, rfl, ?_⟩
    rw [simple, if_neg (by decide), if_pos rfl, string, append_assoc, singleton_append,
      stringRun_append ends]
    simp
  | mark mem =>
    simp only [marks, mem_cons, Prod.mk.injEq, not_mem_nil, or_false] at mem
    rcases mem with ⟨rfl, rfl⟩ | ⟨rfl, rfl⟩ | ⟨rfl, rfl⟩ | ⟨rfl, rfl⟩ | ⟨rfl, rfl⟩ <;>
      exact ⟨_, [], rfl, rfl, rfl⟩
  | dot ends => exact ⟨'.', [], rfl, rfl, by simp [simple, ends]⟩
  | hole spells fits =>
    cases spells with
    | mark => exact ⟨'?', [], rfl, rfl, by simp [simple]⟩
    | percent => exact ⟨'%', ['s'], rfl, rfl, by simp [simple, percent]⟩
    | @numbered digits some_digit all_digits =>
      have hfits := fits.resolve_left (by simp)
      have hhole := numberedHole?_append some_digit all_digits rest
      refine ⟨'%', _, rfl, rfl, ?_⟩
      simp [simple, percent, hhole, all_eq_true.mpr all_digits, hfits]
  | percent free => exact ⟨'%', [], rfl, rfl, by simp [simple, percent, free.1, free.2]⟩
  | operator mem ne ends minus =>
    simp only [operatorSigns, mem_cons, not_mem_nil, or_false] at mem
    rcases mem with rfl | rfl | rfl | rfl | rfl | rfl | rfl | rfl | rfl | rfl | rfl | rfl
    · exact ⟨'<', ['='], rfl, rfl, rfl⟩
    · exact ⟨'>', ['='], rfl, rfl, rfl⟩
    · exact ⟨'<', ['>'], rfl, rfl, rfl⟩
    · exact ⟨'!', ['='], rfl, rfl, rfl⟩
    · exact ⟨'|', ['|'], rfl, rfl, rfl⟩
    · exact ⟨'<', [], rfl, rfl, operator_single (by decide) ends⟩
    · exact ⟨'>', [], rfl, rfl, operator_single (by decide) ends⟩
    · exact ⟨'=', [], rfl, rfl, operator_single (by decide) ends⟩
    · exact ⟨'+', [], rfl, rfl, operator_single (by decide) ends⟩
    · have hsingle := @operator_single '-' rest holes (by decide) ends
      refine ⟨'-', [], rfl, rfl, .trans ?_ hsingle⟩
      have hnone : ¬(opensOperand previous = true ∧ startsDigit rest = true) := fun h => by
        rw [minus rfl h.1] at h
        cases h.2
      simp [simple, hnone]
    · exact ⟨'/', [], rfl, rfl, operator_single (by decide) ends⟩
    · exact absurd rfl ne
  | negative opens starts run => exact ⟨'-', _, rfl, rfl, by simp [simple, opens, starts, run]⟩
  | @number c digits starts run =>
    have hsigns : signs.all (fun d => !(d.isDigit || d == '.')) = true := by decide
    have hsign : c ∉ signs := fun hmem => by
      have hc := all_eq_true.mp hsigns c hmem
      rcases starts with hdigit | ⟨rfl, -⟩
      · simp [hdigit] at hc
      · cases hc
    refine ⟨c, digits, rfl, ?_, ?_⟩
    · rcases starts with hdigit | ⟨rfl, -⟩
      · exact stops_isDigit.not_blank hdigit
      · rfl
    · rw [simple_of_not_sign hsign, if_neg, if_pos (starts.imp_right And.left), run]
      · rfl
      · rintro ⟨rfl, hnone⟩
        rcases starts with hdigit | ⟨-, hsome⟩
        · cases hdigit
        · rw [hnone] at hsome
          cases hsome
  | @word c cs starts chars ends =>
    have hsigns : ('.' :: signs).all (fun d => !(Text.isLetter d || d == '_')) = true := by decide
    have hsign : c ∉ '.' :: signs := fun hmem => by
      have hc := all_eq_true.mp hsigns c hmem
      rcases starts with hletter | rfl
      · simp [hletter] at hc
      · cases hc
    obtain ⟨hpoint, hsign⟩ := not_or.mp (mt mem_cons.mpr hsign)
    have hdigit : ¬ c.isDigit = true := fun h => by
      obtain ⟨hletter, hunderscore⟩ := not_isLetter_of_isDigit h
      exact starts.elim (fun h => by rw [hletter] at h; cases h) hunderscore
    have hrun : (cs ++ rest).takeWhile isWordChar = cs := takeWhile_append_eq_iff.mpr ⟨chars, ends⟩
    refine ⟨c, cs, rfl, stops_isWordChar.not_blank (isWordChar_of_isLetter starts), ?_⟩
    rw [simple_of_not_sign hsign, if_neg (fun h => hpoint h.1), if_neg (not_or.mpr ⟨hdigit, hpoint⟩),
      if_pos starts, hrun]

end

/-! ### Percent signs -/

theorem takeWhile_append_cons (hc : q c = false) (a x : List Char) :
    (a ++ c :: x).takeWhile q = a.takeWhile q := by
  induction a with
  | nil => simp [hc]
  | cons d a ih => simp [takeWhile_cons, ih]

/-- The index of a placeholder does not go on beyond a character that is no part of it. -/
theorem numberedHole?_append_cons (hdecimal : isDecimal c = false)
    (hne : c ≠ '(' ∧ c ≠ ')' ∧ c ≠ 's') (a x : List Char) :
    numberedHole? (a ++ c :: x) = numberedHole? a := by
  cases a with
  | nil => simp [numberedHole?, hne]
  | cons d a =>
    by_cases hd : d = '('
    · subst hd
      simp only [cons_append, numberedHole?, takeWhile_append_cons hdecimal]
      rw [drop_append_of_le_length (List.takeWhile_prefix _).length_le]
      generalize a.takeWhile isDecimal = digits
      generalize a.drop digits.length = rest
      rcases digits with _ | ⟨d, ds⟩
      · rfl
      rcases rest with _ | ⟨e, _ | ⟨e', rest⟩⟩
      · simp [hne]
      · simp [hne]
      · by_cases he : e = ')' <;> by_cases he' : e' = 's' <;> simp [he, he']
    · simp [numberedHole?, hd]

theorem holeFree_append_cons (hdecimal : isDecimal c = false) (hne : c ≠ '(' ∧ c ≠ ')' ∧ c ≠ 's')
    (a x : List Char) : HoleFree (a ++ c :: x) ↔ HoleFree a := by
  rw [HoleFree, HoleFree, numberedHole?_append_cons hdecimal hne]
  cases a <;> simp [hne]

theorem ofWord_ne_operator (word op : String) : ofWord word ≠ .operator op := by
  unfold ofWord
  simp only
  split
  · exact nofun
  split
  · exact nofun
  split
  · exact nofun
  split <;> exact nofun

/-- Behind the operator percent stands no placeholder. -/
theorem Simple.of_percent {previous : Option LexemeKind} {holes next : Nat} {kind : LexemeKind}
    (h : Simple previous holes rest p kind next) (hkind : kind = .operator "%") : HoleFree rest := by
  have hmarks : ∀ e ∈ marks, e.2 ≠ .operator "%" := by decide
  cases h with
  | mark mem => exact absurd hkind (hmarks _ mem)
  | percent free => exact free
  | operator _ ne => exact absurd (LexemeKind.operator.inj hkind) ne
  | word => exact absurd hkind (ofWord_ne_operator _ _)
  | _ => cases hkind

/-! ### Reserved words -/

/-- The texts of the words that are no names. -/
def reservedWords : List String := ["NULL", "TRUE", "FALSE"] ++ Keyword.words.map Keyword.text

theorem toList_toUpper (word : String) : word.toUpper.toList = word.toList.map Char.toUpper := by
  simp [String.toUpper]

end Scan

/-- Whether the lexeme is a word that is no name. -/
def LexemeKind.isReserved : LexemeKind → Bool
  | .keyword _ | .null | .bool _ => true
  | _ => false

namespace Scan

variable {word : String}

theorem mem_reservedWords (h : (ofWord word).isReserved = true) : word.toUpper ∈ reservedWords := by
  unfold ofWord at h
  simp only at h
  split at h
  · rename_i hnull
    simp [hnull, reservedWords]
  split at h
  · rename_i htrue
    simp [htrue, reservedWords]
  split at h
  · rename_i hfalse
    simp [hfalse, reservedWords]
  split at h
  · rename_i k hk
    have htext := find?_some hk
    rw [← eq_of_beq htext]
    exact mem_append_right _ (mem_map_of_mem (mem_of_find?_eq_some hk))
  · cases h

/-- The case of its letters does not matter to a reserved word. -/
theorem ofWord_congr {word' : String} (h : (ofWord word).isReserved = true)
    (hupper : word'.toUpper = word.toUpper) : ofWord word' = ofWord word := by
  unfold ofWord at h ⊢
  simp only [hupper] at h ⊢
  split
  · rfl
  split
  · rfl
  split
  · rfl
  split
  · rfl
  · rename_i hnull htrue hfalse _ hnone
    rw [if_neg hnull, if_neg htrue, if_neg hfalse, hnone] at h
    cases h

set_option maxRecDepth 4000 in
theorem reservedWords_isAlpha (h : word ∈ reservedWords) :
    word.toList ≠ [] ∧ ∀ c ∈ word.toList, c.isAlpha = true := by
  have hall : (reservedWords.all fun word =>
      !word.toList.isEmpty && word.toList.all Char.isAlpha) = true := by decide
  have hword := all_eq_true.mp hall word h
  simp only [Bool.and_eq_true, all_eq_true] at hword
  exact ⟨by simpa using hword.1, hword.2⟩

theorem isAlpha_toUpper (c : Char) : c.toUpper.isAlpha = c.isAlpha := toUpper_congr (by decide) c

theorem toNat_of_isAlpha (hc : c.isAlpha = true) :
    65 ≤ c.toNat ∧ c.toNat ≤ 90 ∨ 97 ≤ c.toNat ∧ c.toNat ≤ 122 := by
  have hval : (decide (c.val ≥ 'A'.val ∧ c.val ≤ 'Z'.val) ||
    (decide (c.val ≥ 'a'.val) && decide (c.val ≤ 'z'.val))) = true := hc
  simp only [Bool.or_eq_true, Bool.and_eq_true, decide_eq_true_eq, ge_iff_le,
    UInt32.le_iff_toNat_le] at hval
  exact hval

theorem isLetter_of_isAlpha (hc : c.isAlpha = true) : Text.isLetter c = true := by
  have hcode := toNat_of_isAlpha hc
  rw [Text.isLetter, if_pos (by omega), hc]

/-- A text with the outline of a word is the word up to the case of its letters. -/
theorem map_toUpper_of_outline {piece piece' : List Char} (hpiece : ∀ c ∈ piece, c.isAlpha = true)
    (h : outline false piece' = outline false piece) :
    piece'.map Char.toUpper = piece.map Char.toUpper := by
  have hblank : ∀ c ∈ piece, isBlank c = false := fun c hc => not_isBlank_of_isAlpha (hpiece c hc)
  rw [outline_eq_map hblank] at h
  have hspace : ' ' ∉ outline false piece' := by
    rw [h]
    intro hmem
    obtain ⟨c, hc, hupper⟩ := mem_map.mp hmem
    have halpha := hpiece c hc
    rw [← isAlpha_toUpper, hupper] at halpha
    cases halpha
  rw [← h, outline_eq_map (not_blank_of_outline hspace)]

variable {previous : Option LexemeKind} {holes next : Nat} {kind : LexemeKind} {piece piece' : List Char}

theorem Simple.of_reserved (h : Simple previous holes rest piece kind next)
    (hkind : kind.isReserved = true) : kind = ofWord (String.ofList piece) ∧ next = holes ∧
      rest.head?.any isWordChar = false := by
  have hmarks : ∀ e ∈ marks, ¬ e.2.isReserved = true := by decide
  cases h with
  | mark mem => exact absurd hkind (hmarks _ mem)
  | word _ _ ends => exact ⟨rfl, rfl, ends⟩
  | _ => cases hkind

/-- A reserved word may be spelled in another way before a text that is alike. -/
theorem Simple.respelled (hform : Simple previous holes rest piece kind next)
    (hkind : kind.isReserved = true) (hpiece : outline false piece' = outline false piece)
    (h : EndsAlike rest rest') : Simple previous holes rest' piece' kind next := by
  obtain ⟨rfl, rfl, hends⟩ := hform.of_reserved hkind
  -- the word is made of letters, and so is the other one
  obtain ⟨hne, hupper⟩ := reservedWords_isAlpha (mem_reservedWords hkind)
  rw [toList_toUpper, String.toList_ofList] at hne hupper
  have halpha : ∀ d ∈ piece, d.isAlpha = true := by
    intro d hd
    rw [← isAlpha_toUpper]
    exact hupper _ (mem_map_of_mem hd)
  have hmap := map_toUpper_of_outline halpha hpiece
  have hletter : ∀ d ∈ piece', Text.isLetter d = true ∨ d = '_' := by
    intro d hd
    have hmem : d.toUpper ∈ piece.map Char.toUpper := hmap ▸ mem_map_of_mem hd
    refine .inl (isLetter_of_isAlpha ?_)
    rw [← isAlpha_toUpper]
    exact hupper _ hmem
  have hword : ofWord (String.ofList piece') = ofWord (String.ofList piece) := by
    refine ofWord_congr hkind (String.toList_inj.mp ?_)
    rw [toList_toUpper, toList_toUpper, String.toList_ofList, String.toList_ofList, hmap]
  rw [← hword]
  cases piece' with
  | nil => exact absurd hmap.symm hne
  | cons c cs =>
    refine .word (hletter c mem_cons_self) (fun d hd => ?_) ((h _ stops_isWordChar).trans hends)
    exact isWordChar_of_isLetter (hletter d (mem_cons_of_mem _ hd))

end Scan

/-! ### Lexemes and compound keywords -/

/-- The piece is one lexeme where the rest stands behind it: a compound keyword in any spelling, or
another lexeme where no compound keyword stands. -/
inductive Scans (previous : Option LexemeKind) (holes : Nat) (piece rest : List Char) :
    LexemeKind → Nat → Prop
  | compound {k : Keyword} (mem : k ∈ Keyword.compounds)
    (spelled : outline false piece = Text.uppercase k.text.toList)
    (ends : rest.head?.all isDelimiter = true) : Scans previous holes piece rest (.keyword k) holes
  | simple {kind : LexemeKind} {next : Nat} (none : compound? (piece ++ rest) = none)
    (form : Scan.Simple previous holes rest piece kind next) : Scans previous holes piece rest kind next

section

variable {piece piece' rest rest' : List Char} {kind : LexemeKind}
variable {previous : Option LexemeKind} {holes next : Nat}

set_option maxRecDepth 4000 in
theorem exists_cons_of_compound {k : Keyword} (hk : k ∈ Keyword.compounds)
    (h : outline false piece = Text.uppercase k.text.toList) :
    ∃ c p, piece = c :: p ∧ isBlank c = false := by
  have hall : (Keyword.compounds.all fun k =>
    (Text.uppercase k.text.toList).head?.any fun w => w != ' ') = true := by decide
  have hfirst := all_eq_true.mp hall k hk
  rw [← h, head?_outline] at hfirst
  cases piece with
  | nil => cases hfirst
  | cons c p =>
    refine ⟨c, p, rfl, Bool.eq_false_iff.mpr fun hc => ?_⟩
    simp [hc] at hfirst

/-- What is scanned is one lexeme. -/
theorem exists_scans (h : scan previous holes c cs = .ok r) : ∃ piece rest, c :: cs = piece ++ rest ∧
    piece.length = r.more + 1 ∧ Scans previous holes piece rest r.kind r.holes := by
  unfold scan at h
  split at h
  · rename_i k n hcompound
    cases h
    obtain ⟨hk, hmatch⟩ := compound?_eq_some hcompound
    obtain ⟨piece, rest, htext, rfl, houtline, hend⟩ :=
      matchCapitals_eq_some (worded_compounds k hk).spaces hmatch
    obtain ⟨d, p, rfl, -⟩ := exists_cons_of_compound hk houtline
    exact ⟨d :: p, rest, htext, rfl, .compound hk houtline hend⟩
  · rename_i hnone
    obtain ⟨piece, rest, hsplit, hlength, hform⟩ := Scan.simple_found _ _ _ _ r h
    exact ⟨piece, rest, hsplit, hlength, .simple (hsplit ▸ hnone) hform⟩

namespace Scans

/-- One lexeme is scanned as it is. -/
theorem scan_eq (h : Scans previous holes piece rest kind next) :
    ∃ c p, piece = c :: p ∧ isBlank c = false ∧
      scan previous holes c (p ++ rest) = .ok ⟨kind, p.length, next⟩ := by
  cases h with
  | compound mem spelled ends =>
    obtain ⟨c, p, rfl, hc⟩ := exists_cons_of_compound mem spelled
    refine ⟨c, p, rfl, hc, ?_⟩
    rw [scan, ← cons_append, compound?_append mem spelled ends]
    rfl
  | simple none form =>
    obtain ⟨c, p, rfl, hc, hsimple⟩ := Scan.exists_simple_eq form
    refine ⟨c, p, rfl, hc, ?_⟩
    rw [scan, ← cons_append, none]
    exact hsimple

theorem head_not_blank (h : Scans previous holes piece rest kind next) :
    piece.head?.any isBlank = false := by
  obtain ⟨c, p, rfl, hc, -⟩ := h.scan_eq
  exact hc

theorem of_percent (h : Scans previous holes piece rest kind next) (hkind : kind = .operator "%") :
    Scan.HoleFree rest := by
  cases h with
  | compound => cases hkind
  | simple _ form => exact form.of_percent hkind

/-- Before a text that is alike, a reserved word or a compound of such words may be spelled in another
way, and any other lexeme stays as it is. -/
theorem respelled (hscans : Scans previous holes piece rest kind next)
    (spells : if kind.isReserved then outline false piece' = outline false piece else piece' = piece)
    (behind : kind = .operator "%" → Scan.HoleFree rest') (h : Alike rest rest') :
    Scans previous holes piece' rest' kind next := by
  have houtline : outline false piece' = outline false piece := by
    split at spells
    · exact spells
    · rw [spells]
  have hhead := hscans.head_not_blank
  cases hscans with
  | compound mem spelled ends => exact .compound mem (houtline.trans spelled) (h.all_head ends)
  | simple none form =>
    refine .simple ?_ ?_
    · have hfst := compound?_alike (h.append hhead houtline)
      rw [none] at hfst
      exact Option.map_eq_none_iff.mp hfst
    · split at spells
      · rename_i hkind
        exact form.respelled hkind houtline h.endsAlike
      · rw [spells]
        exact form.alike h.endsAlike behind

end Scans

end

/-! ### The characters of a lexeme -/

namespace LexState

/-- The characters of the lexeme that is next. -/
def piece (s : LexState) (r : Scan) : List Char := (s.rest.drop s.blanks).take (r.more + 1)

variable {s : LexState}

/-- The lexeme that is next stands between the blanks and the text that is left then. -/
theorem scans_piece (h : s.scan? = some (.ok r)) :
    s.rest.drop s.blanks = s.piece r ++ (s.after r).rest ∧ (s.piece r).length = r.more + 1 ∧
      Scans s.previous s.holes (s.piece r) (s.after r).rest r.kind r.holes := by
  obtain ⟨c, cs, hcs, hscan⟩ := scan?_eq_some h
  obtain ⟨piece, rest, hsplit, hlength, hscans⟩ := exists_scans hscan
  have hpiece : s.piece r = piece := by rw [LexState.piece, hcs, hsplit, ← hlength, take_left]
  have hrest : (s.after r).rest = rest := by
    rw [after, ← drop_drop, hcs, hsplit, ← hlength, drop_left]
  rw [hcs, hpiece, hrest]
  exact ⟨hsplit, hlength, hscans⟩

/-- The text that is left is the blanks, the lexeme and what stands behind it. -/
theorem rest_eq_piece (h : s.scan? = some (.ok r)) :
    s.rest = s.rest.takeWhile isBlank ++ (s.piece r ++ (s.after r).rest) := by
  rw [← (scans_piece h).1, blanks, takeWhile_append_drop]

theorem drop_of_scan?_eq_none (h : s.scan? = none) : s.rest.drop s.blanks = [] := by
  unfold scan? at h
  split at h
  · assumption
  · cases h

theorem blanks_append {gap : List Char} (hrest : s.rest = gap ++ text)
    (hgap : ∀ c ∈ gap, isBlank c = true) (htext : text.head?.any isBlank = false) :
    s.blanks = gap.length := by
  have htake := Scan.takeWhile_append_eq_iff.mpr ⟨hgap, htext⟩
  rw [blanks, hrest, htake]

theorem blanks_eq_zero_iff : s.blanks = 0 ↔ s.rest.takeWhile isBlank = [] := length_eq_zero_iff

end LexState

/-! ### Respelled texts -/

/-- Another spelling of the text that is left: in place of each run of blanks another one, reserved
words in any case, every other lexeme as it is, and blanks and semicolons at the end.  Where a percent
sign is an operator, `kept` holds of the text behind it. -/
inductive Respelled (kept : List Char → Prop) : LexState → List Char → Prop
  | done {s : LexState} (gap tail : List Char) (ends : s.scan? = none)
    (blanks : ∀ c ∈ gap, isBlank c = true) (nil_iff : gap = [] ↔ s.blanks = 0)
    (closing : ∀ c ∈ tail, isBlank c = true ∨ c = ';') : Respelled kept s (gap ++ tail)
  | step {s : LexState} (r : Scan) (gap piece text : List Char) (reads : s.scan? = some (.ok r))
    (blanks : ∀ c ∈ gap, isBlank c = true) (nil_iff : gap = [] ↔ s.blanks = 0)
    (spells : if r.kind.isReserved then outline false piece = outline false (s.piece r)
      else piece = s.piece r)
    (behind : r.kind = .operator "%" → kept text) (rest : Respelled kept (s.after r) text) :
    Respelled kept s (gap ++ (piece ++ text))

theorem outline_closing {tail : List Char} (h : ∀ c ∈ tail, isBlank c = true ∨ c = ';')
    (blank : Bool) : ∀ c ∈ outline blank tail, c = ' ' ∨ c = ';' := by
  induction tail generalizing blank with
  | nil => nofun
  | cons c tail ih =>
    obtain ⟨hc, htail⟩ := forall_mem_cons.mp h
    rcases hc with hc | rfl
    · rw [outline_cons_of_blank hc, forall_mem_append]
      refine ⟨?_, ih htail true⟩
      cases blank <;> simp
    · exact forall_mem_cons.mpr ⟨.inr rfl, ih htail false⟩

/-- Blanks and semicolons are alike with nothing. -/
theorem alike_closing {tail : List Char} (h : ∀ c ∈ tail, isBlank c = true ∨ c = ';') :
    Alike [] tail := by
  refine fun blank => ⟨outline blank tail, ⟨fun _ c hc => ?_, fun c hc => ?_⟩, rfl⟩
  · exact outline_closing h blank c (mem_of_head? hc)
  · have hmem := (dropWhile_suffix (· == ' ')).subset (mem_of_head? hc)
    rcases outline_closing h blank c hmem with rfl | rfl <;> rfl

namespace Respelled

variable {kept : List Char → Prop} {s : LexState}

theorem outline_piece {piece : List Char}
    (h : if r.kind.isReserved then outline false piece = outline false (s.piece r)
      else piece = s.piece r) : outline false piece = outline false (s.piece r) := by
  split at h
  · exact h
  · rw [h]

/-- A respelled text is like the text. -/
theorem alike (h : Respelled kept s text) : Alike s.rest text := by
  induction h with
  | @done s gap tail ends blanks nil_iff closing =>
    have hrest : s.rest = s.rest.takeWhile isBlank ++ [] := by
      rw [← LexState.drop_of_scan?_eq_none ends, LexState.blanks, takeWhile_append_drop]
    rw [hrest]
    refine (alike_closing closing).append_blanks (isBlank_of_mem_takeWhile _) blanks ?_
    rw [nil_iff, LexState.blanks_eq_zero_iff]
  | @step s r gap piece text reads blanks nil_iff spells behind rest ih =>
    have hhead := (LexState.scans_piece reads).2.2.head_not_blank
    rw [LexState.rest_eq_piece reads]
    refine (ih.append hhead (outline_piece spells)).append_blanks (isBlank_of_mem_takeWhile _) blanks ?_
    rw [nil_iff, LexState.blanks_eq_zero_iff]

end Respelled

end DocSql
