import DocSql.Proofs.Respelling
import DocSql.Proofs.SettledTokens

/-! # Reading written lexemes

Where a lexeme is written and a text follows that does not go on with it, the lexeme is read again.
-/
namespace DocSql

open Text List

variable {k : Keyword} {text rest : List Char} {c : Char} {word : String}

/-! ### Compound keywords -/

/-- The words of a keyword. -/
def Keyword.parts : Keyword → List String
  | .LEFT_OUTER_JOIN => ["LEFT", "OUTER", "JOIN"]
  | .RIGHT_OUTER_JOIN => ["RIGHT", "OUTER", "JOIN"]
  | .FULL_OUTER_JOIN => ["FULL", "OUTER", "JOIN"]
  | .INNER_JOIN => ["INNER", "JOIN"]
  | .LEFT_JOIN => ["LEFT", "JOIN"]
  | .RIGHT_JOIN => ["RIGHT", "JOIN"]
  | .FULL_JOIN => ["FULL", "JOIN"]
  | .CROSS_JOIN => ["CROSS", "JOIN"]
  | .GROUP_BY => ["GROUP", "BY"]
  | .ORDER_BY => ["ORDER", "BY"]
  | k => [k.text]

/-- Words with a space before each. -/
def spaced (words : List String) : List Char := words.flatMap fun word => ' ' :: word.toList

set_option maxRecDepth 8000 in
/-- A compound keyword is made of words of letters. -/
theorem Keyword.parts_compound (hk : k ∈ Keyword.compounds) :
    ∃ first next more, k.parts = first :: next :: more ∧
      Text.uppercase k.text.toList = first.toList ++ spaced (next :: more) ∧
      (∀ word ∈ k.parts, word.toList ≠ [] ∧ ∀ c ∈ word.toList, c.isAlpha = true) ∧
      " ".intercalate k.parts = k.text := by
  have hall : (Keyword.compounds.all fun k =>
      decide (2 ≤ k.parts.length) &&
      (Text.uppercase k.text.toList == (k.parts.headD "").toList ++ spaced k.parts.tail) &&
      (k.parts.all fun word => !word.toList.isEmpty && word.toList.all Char.isAlpha) &&
      (" ".intercalate k.parts == k.text)) = true := by decide
  have hk := all_eq_true.mp hall k hk
  simp only [Bool.and_eq_true, beq_iff_eq, all_eq_true, decide_eq_true_eq] at hk
  obtain ⟨⟨⟨hlength, hupper⟩, hwords⟩, htext⟩ := hk
  rcases hparts : k.parts with _ | ⟨first, _ | ⟨next, more⟩⟩
  · simp [hparts] at hlength
  · simp [hparts] at hlength
  · rw [hparts] at hupper hwords htext
    refine ⟨first, next, more, rfl, hupper, fun word hword => ?_, htext⟩
    have hword := hwords word hword
    exact ⟨by simpa using hword.1, hword.2⟩

/-- A compound keyword shows in the outline of a text. -/
theorem outline_of_compound? {n : Nat} (h : compound? text = some (k, n)) :
    k ∈ Keyword.compounds ∧ ∃ first next more tail, k.parts = first :: next :: more ∧
      outline false text = first.toList ++ (spaced (next :: more) ++ tail) ∧
      tail.head?.all isDelimiter = true := by
  obtain ⟨hk, hmatch⟩ := compound?_eq_some h
  obtain ⟨first, next, more, hparts, hupper, -⟩ := Keyword.parts_compound hk
  have hsome : (matchCapitals (Text.uppercase k.text.toList) text).isSome = true := by
    rw [show matchCapitals (Text.uppercase k.text.toList) text = some n from hmatch]
    rfl
  obtain ⟨tail, houtline, htail⟩ := (matchCapitals_isSome_iff (worded_compounds k hk).spaces).mp hsome
  exact ⟨hk, first, next, more, tail, hparts, by rw [houtline, hupper, append_assoc], htail⟩

/-- No compound keyword stands where a character that is no letter comes before the first blank. -/
theorem compound?_eq_none {u v : List Char} (houtline : outline false text = u ++ v)
    (hspace : ' ' ∉ u) (hc : c ∈ u) (halpha : c.isAlpha = false) : compound? text = none := by
  cases hcompound : compound? text with
  | none => rfl
  | some result =>
    obtain ⟨k, n⟩ := result
    obtain ⟨hk, first, next, more, tail, hparts, hfirst, -⟩ := outline_of_compound? hcompound
    obtain ⟨-, -, -, -, -, hwords, -⟩ := Keyword.parts_compound hk
    have hletters := (hwords first (hparts ▸ mem_cons_self)).2
    rw [houtline] at hfirst
    -- the first word is all that stands before the first blank
    have hmem : c ∈ first.toList := by
      rcases append_eq_append_iff.mp hfirst with ⟨w, hu, -⟩ | ⟨w, rfl, hw⟩
      · rw [hu]
        exact mem_append_left _ hc
      · cases w with
        | nil => simpa using hc
        | cons d w =>
          obtain rfl : ' ' = d := (cons.inj hw).1
          exact absurd (mem_append_right _ mem_cons_self) hspace
    rw [hletters c hmem] at halpha
    cases halpha

/-! ### Texts that end a lexeme -/

/-- Whether a character ends every lexeme that stands before it. -/
def isEnd (c : Char) : Bool := c = ' ' || c = ',' || c = ')'

/-- The text goes on with no lexeme before it. -/
def Ended (text : List Char) : Prop := text.head?.all isEnd = true

theorem Ended.any_head (h : Ended text) {p : Char → Bool} (hspace : p ' ' = false)
    (hcomma : p ',' = false) (hparen : p ')' = false) : text.head?.any p = false := by
  cases text with
  | nil => rfl
  | cons c cs =>
    have hc : (c = ' ' ∨ c = ',') ∨ c = ')' := by simpa [Ended, isEnd] using h
    rcases hc with (rfl | rfl) | rfl <;> assumption

theorem Ended.all_isDelimiter (h : Ended text) : text.head?.all isDelimiter = true := by
  have hany : text.head?.any (fun c => !isDelimiter c) = false := h.any_head rfl rfl rfl
  cases text with
  | nil => rfl
  | cons c cs => simpa using hany

theorem endsBlank_of_not_blank (h : ∀ c ∈ text, isBlank c = false) :
    endsBlank false text = false := by
  unfold endsBlank
  induction text with
  | nil => rfl
  | cons c cs ih =>
    obtain ⟨hc, hcs⟩ := forall_mem_cons.mp h
    rw [foldl_cons, hc, ih hcs]

/-- A word of capital letters stays itself in the outline. -/
theorem outline_word {word : List Char} (hword : ∀ c ∈ word, c.isAlpha = true ∧ c.toUpper = c) :
    outline false (word ++ rest) = word ++ outline false rest := by
  have hblank : ∀ c ∈ word, isBlank c = false := fun c hc => not_isBlank_of_isAlpha (hword c hc).1
  have hmap : word.map Char.toUpper = word :=
    (map_congr_left fun c hc => (hword c hc).2).trans (map_id _)
  rw [outline_append, outline_eq_map hblank, hmap, endsBlank_of_not_blank hblank]

/-- Two runs of the same kind of characters, each to its end, are equal where the texts are. -/
theorem append_inj_of_run {p : Char → Bool} {run run' rest' : List Char}
    (hrun : ∀ c ∈ run, p c = true) (hrun' : ∀ c ∈ run', p c = true)
    (hrest : rest.head?.any p = false) (hrest' : rest'.head?.any p = false)
    (h : run ++ rest = run' ++ rest') : run = run' ∧ rest = rest' := by
  have heq : run = run' := by
    rw [← Scan.takeWhile_append_eq_iff.mpr ⟨hrun, hrest⟩, h,
      Scan.takeWhile_append_eq_iff.mpr ⟨hrun', hrest'⟩]
  subst heq
  exact ⟨rfl, append_cancel_left h⟩

theorem stops_isAlpha : Stops Char.isAlpha := .of_all (by decide) (by decide) rfl

/-- A compound keyword that starts with a word has this word for its first, and goes on behind it. -/
theorem outline_rest_of_compound? {n : Nat}
    (hword : ∀ c ∈ word.toList, c.isAlpha = true ∧ c.toUpper = c)
    (hrest : rest.head?.any Char.isAlpha = false)
    (h : compound? (word.toList ++ rest) = some (k, n)) :
    k ∈ Keyword.compounds ∧ ∃ next more tail, k.parts = word :: next :: more ∧
      outline false rest = spaced (next :: more) ++ tail ∧ tail.head?.all isDelimiter = true := by
  obtain ⟨hk, first, next, more, tail, hparts, houtline, htail⟩ := outline_of_compound? h
  obtain ⟨-, -, -, -, -, hwords, -⟩ := Keyword.parts_compound hk
  have hfirst := (hwords first (hparts ▸ mem_cons_self)).2
  rw [outline_word hword] at houtline
  obtain ⟨heq, hmore⟩ := append_inj_of_run (fun c hc => (hword c hc).1) hfirst
    (by rwa [stops_isAlpha.any_head_outline]) rfl houtline
  obtain rfl := String.toList_inj.mp heq
  exact ⟨hk, next, more, tail, hparts, hmore, htail⟩

/-! ### Reading one lexeme -/

section

variable {previous : Option LexemeKind} {holes : Nat}

/-- What starts with no letter is no compound keyword. -/
theorem compound?_of_not_alpha (hc : c.isAlpha = false) (hblank : isBlank c = false) (cs : List Char) :
    compound? (c :: cs) = none := by
  refine compound?_eq_none (outline_cons_of_not_blank hblank) (u := [c.toUpper]) ?_
    mem_cons_self (by rwa [Scan.isAlpha_toUpper])
  simpa using (toUpper_ne_space hblank).symm

/-- A lexeme that starts with no letter. -/
theorem Scan.Simple.scans {piece : List Char} {kind : LexemeKind} {next : Nat}
    (h : Scan.Simple previous holes rest piece kind next) (hc : piece.head?.any Char.isAlpha = false) :
    Scans previous holes piece rest kind next := by
  obtain ⟨c, p, rfl, hblank, -⟩ := Scan.exists_simple_eq h
  exact .simple (compound?_of_not_alpha hc hblank _) h

theorem scans_mark {kind : LexemeKind} (h : (c, kind) ∈ marks) :
    Scans previous holes [c] rest kind holes := by
  have hmarks : ∀ e ∈ marks, e.1.isAlpha = false := by decide
  exact (Scan.Simple.mark h).scans (hmarks _ h)

theorem scans_dot (h : Scan.startsDigit rest = false) : Scans previous holes ['.'] rest .dot holes :=
  (Scan.Simple.dot h).scans rfl

/-- A name between quotes that holds no quote. -/
theorem scans_quoted {name : String} (h : '\x22' ∉ name.toList) :
    Scans previous holes ('\x22' :: (name.toList ++ ['\x22'])) rest (.quoted name) holes := by
  have hform : Scan.Simple previous holes rest _ _ _ := .quoted (.inl rfl) h
  rw [String.ofList_toList] at hform
  exact hform.scans rfl

theorem scans_string {s : String} (hrest : rest.head?.any (· == '\x27') = false) :
    Scans previous holes (Literal.quote s).toList rest (.string s) holes := by
  have hform : Scan.Simple previous holes rest _ (.string (String.ofList s.toList)) _ := .string hrest
  rw [String.ofList_toList] at hform
  rw [Literal.quote, String.toList_ofList]
  exact hform.scans rfl

/-! ### Numbers -/

/-- Digits are read up to a text that ends them. -/
theorem numberRun_append {digits : List Char} (hdigits : ∀ d ∈ digits, d.isDigit = true)
    (hrest : Ended rest) : Scan.numberRun false (digits ++ rest) = digits := by
  induction digits with
  | nil => exact Scan.numberRun_eq_nil_iff.mpr (hrest.any_head rfl rfl rfl)
  | cons d digits ih =>
    obtain ⟨hd, hmore⟩ := forall_mem_cons.mp hdigits
    rw [cons_append, Scan.numberRun.eq_def]
    simp only [hd, Bool.true_or, if_true, ih hmore]

theorem isDigit_of_mem_toDigits {n : Nat} : ∀ d ∈ Nat.toDigits 10 n, d.isDigit = true :=
  fun _ hd => Nat.isDigit_of_mem_toDigits (by decide) (by decide) hd

theorem not_isAlpha_of_isDigit (h : c.isDigit = true) : c.isAlpha = false := by
  refine Bool.eq_false_iff.mpr fun halpha => ?_
  have hletter := Scan.isLetter_of_isAlpha halpha
  rw [(Scan.not_isLetter_of_isDigit h).1] at hletter
  cases hletter

/-- A number without a sign. -/
theorem scans_nat (n : Nat) (hrest : Ended rest) :
    Scans previous holes (Nat.toDigits 10 n) rest (.number (String.ofList (Nat.toDigits 10 n))) holes := by
  obtain ⟨d, digits, hn⟩ := exists_cons_of_ne_nil (@Nat.toDigits_ne_nil n 10)
  have hdigits := @isDigit_of_mem_toDigits n
  rw [hn] at hdigits ⊢
  have hd := hdigits d mem_cons_self
  exact (Scan.Simple.number (.inl hd) (numberRun_append hdigits hrest)).scans (not_isAlpha_of_isDigit hd)

theorem startsDigit_toDigits (n : Nat) : Scan.startsDigit (Nat.toDigits 10 n ++ rest) = true := by
  obtain ⟨d, digits, hn⟩ := exists_cons_of_ne_nil (@Nat.toDigits_ne_nil n 10)
  have hd : d.isDigit = true := isDigit_of_mem_toDigits d (by rw [hn]; exact mem_cons_self)
  rw [hn]
  exact hd

/-- A number with its sign, where an operand may come. -/
theorem scans_negative (n : Nat) (hprevious : Scan.opensOperand previous = true)
    (hrest : Ended rest) : Scans previous holes ('-' :: Nat.toDigits 10 n) rest
      (.number (String.ofList ('-' :: Nat.toDigits 10 n))) holes :=
  (Scan.Simple.negative hprevious (startsDigit_toDigits n)
    (numberRun_append isDigit_of_mem_toDigits hrest)).scans rfl

/-- A minus sign where no operand may come is an operator. -/
theorem scans_minus (hprevious : Scan.opensOperand previous = false) :
    Scans previous holes ['-'] rest (.operator "-") holes := by
  have hends : rest.head?.any (Scan.continuesOperator "-") = false := by
    cases rest with
    | nil => rfl
    | cons d rest => simp [Scan.continuesOperator, Scan.longOperators, ← String.toList_inj]
  refine (Scan.Simple.operator (by decide) (by decide) hends fun _ hopens => ?_).scans rfl
  rw [hprevious] at hopens
  cases hopens

/-- An operator, where a text follows that ends it. -/
theorem scans_operator {op : String} (hop : op ∈ operatorSigns) (hrest : Ended rest) :
    Scans previous holes op.toList rest (.operator op) holes := by
  have hsigns : ∀ op ∈ operatorSigns, op.toList.head?.any Char.isAlpha = false ∧
      Scan.continuesOperator op ' ' = false ∧ Scan.continuesOperator op ',' = false ∧
      Scan.continuesOperator op ')' = false := by decide
  obtain ⟨hfirst, hspace, hcomma, hparen⟩ := hsigns op hop
  by_cases hpercent : op = "%"
  · subst hpercent
    refine (Scan.Simple.percent ?_).scans rfl
    cases rest with
    | nil => exact ⟨by simp, rfl⟩
    | cons c cs =>
      have hc : (c = ' ' ∨ c = ',') ∨ c = ')' := by simpa [Ended, isEnd] using hrest
      rcases hc with (rfl | rfl) | rfl <;> exact ⟨by simp, rfl⟩
  · refine (Scan.Simple.operator hop hpercent ?_ fun _ _ => ?_).scans hfirst
    · exact hrest.any_head hspace hcomma hparen
    · rw [Scan.startsDigit_eq]
      exact hrest.any_head rfl rfl rfl

/-! ### Words -/

/-- A reserved word, where no compound keyword starts with it. -/
theorem scans_reserved (hword : word ∈ Scan.reservedWords) (hrest : Ended rest)
    (hnone : compound? (word.toList ++ rest) = none) :
    Scans previous holes word.toList rest (Scan.ofWord word) holes := by
  obtain ⟨hne, halpha⟩ := Scan.reservedWords_isAlpha hword
  obtain ⟨c, cs, hc⟩ := exists_cons_of_ne_nil hne
  have hletter : ∀ d ∈ c :: cs, Text.isLetter d = true ∨ d = '_' :=
    fun d hd => .inl (Scan.isLetter_of_isAlpha (halpha d (hc ▸ hd)))
  have hform : Scan.Simple previous holes rest (c :: cs) (Scan.ofWord (String.ofList (c :: cs))) holes :=
    .word (hletter c mem_cons_self)
      (fun d hd => Scan.isWordChar_of_isLetter (hletter d (mem_cons_of_mem _ hd)))
      (hrest.any_head rfl rfl rfl)
  rw [← hc, String.ofList_toList] at hform
  exact .simple hnone hform

/-- A name, where a parenthesis follows. -/
theorem scans_name {name : String} (hname : Scan.IsName name) :
    Scans previous holes name.toList ('(' :: rest) (.name name) holes := by
  obtain ⟨⟨c, cs, hc, hfirst, hmore⟩, hword⟩ := hname
  have hblank : ∀ d ∈ c :: cs, isBlank d = false := by
    refine forall_mem_cons.mpr ⟨Scan.stops_isWordChar.not_blank (Scan.isWordChar_of_isLetter hfirst), ?_⟩
    exact fun d hd => Scan.stops_isWordChar.not_blank (hmore d hd)
  have hnone : compound? (c :: cs ++ '(' :: rest) = none := by
    have houtline : outline false (c :: cs ++ '(' :: rest) =
        (c :: cs).map Char.toUpper ++ ['('] ++ outline false rest := by
      rw [outline_append, outline_eq_map hblank, endsBlank_of_not_blank hblank,
        outline_cons_of_not_blank rfl, append_assoc]
      rfl
    refine compound?_eq_none houtline ?_ (mem_append_right _ mem_cons_self) rfl
    simp only [mem_append, mem_map, mem_singleton, not_or, not_exists, not_and]
    exact ⟨fun d hd => toUpper_ne_space (hblank d hd), by decide⟩
  rw [← hword, ← String.ofList_toList (s := name), String.toList_ofList, hc]
  exact .simple hnone (.word hfirst hmore rfl)

/-! ### Keywords -/

theorem Keyword.mem_words_or_compounds (k : Keyword) : k ∈ Keyword.words ∨ k ∈ Keyword.compounds := by
  cases k <;> decide

set_option maxRecDepth 8000 in
/-- Reserved words are written in capitals. -/
theorem toUpper_of_mem_reservedWords (h : word ∈ Scan.reservedWords) :
    ∀ c ∈ word.toList, c.isAlpha = true ∧ c.toUpper = c := by
  have hall : (Scan.reservedWords.all fun word => word.toList.all fun c => c.toUpper == c) = true := by
    decide
  have hword := all_eq_true.mp hall word h
  exact fun c hc => ⟨(Scan.reservedWords_isAlpha h).2 c hc, eq_of_beq (all_eq_true.mp hword c hc)⟩

theorem toUpper_reservedWord (h : word ∈ Scan.reservedWords) : word.toUpper = word := by
  rw [← String.toList_inj, Scan.toList_toUpper]
  exact (map_congr_left fun c hc => (toUpper_of_mem_reservedWords h c hc).2).trans (map_id _)

theorem text_mem_reservedWords (hk : k ∈ Keyword.words) :
    k.text ∈ Scan.reservedWords := mem_append_right _ (mem_map_of_mem hk)

set_option maxRecDepth 8000 in
theorem ofWord_text (hk : k ∈ Keyword.words) : Scan.ofWord k.text = .keyword k := by
  have hall : (Keyword.words.all fun k => k.text != "NULL" && k.text != "TRUE" && k.text != "FALSE" &&
      Keyword.ofWord? k.text == some k) = true := by decide
  have hk' := all_eq_true.mp hall k hk
  simp only [Bool.and_eq_true, bne_iff_ne, beq_iff_eq] at hk'
  obtain ⟨⟨⟨hnull, htrue⟩, hfalse⟩, hword⟩ := hk'
  rw [Scan.ofWord]
  simp only [toUpper_reservedWord (text_mem_reservedWords hk), if_neg hnull, if_neg htrue, if_neg hfalse,
    hword]

/-- A keyword of a single word, where no compound keyword starts with it. -/
theorem scans_word (hk : k ∈ Keyword.words) (hrest : Ended rest)
    (hnone : compound? (k.text.toList ++ rest) = none) :
    Scans previous holes k.text.toList rest (.keyword k) holes := by
  rw [← ofWord_text hk]
  exact scans_reserved (text_mem_reservedWords hk) hrest hnone

set_option maxRecDepth 8000 in
theorem outline_text (hk : k ∈ Keyword.compounds) :
    outline false k.text.toList = Text.uppercase k.text.toList := by
  have hall : (Keyword.compounds.all fun k =>
    outline false k.text.toList == Text.uppercase k.text.toList) = true := by decide
  exact eq_of_beq (all_eq_true.mp hall k hk)

/-- A compound keyword. -/
theorem scans_compound (hk : k ∈ Keyword.compounds) (hrest : Ended rest) :
    Scans previous holes k.text.toList rest (.keyword k) holes :=
  .compound hk (outline_text hk) hrest.all_isDelimiter

theorem ofWord_null : Scan.ofWord "NULL" = .null := by
  rw [Scan.ofWord, toUpper_reservedWord (by decide)]
  rfl

theorem ofWord_true : Scan.ofWord "TRUE" = .bool true := by
  rw [Scan.ofWord, toUpper_reservedWord (by decide)]
  rfl

theorem ofWord_false : Scan.ofWord "FALSE" = .bool false := by
  rw [Scan.ofWord, toUpper_reservedWord (by decide)]
  rfl

/-- The literals that are words. -/
theorem scans_literalWord (hword : word ∈ ["NULL", "TRUE", "FALSE"]) (hrest : Ended rest) :
    Scans previous holes word.toList rest (Scan.ofWord word) holes := by
  have hmem : word ∈ Scan.reservedWords := mem_append_left _ hword
  refine scans_reserved hmem hrest ?_
  cases hcompound : compound? (word.toList ++ rest) with
  | none => rfl
  | some result =>
    obtain ⟨k, n⟩ := result
    obtain ⟨hk, next, more, tail, hparts, -⟩ := outline_rest_of_compound?
      (toUpper_of_mem_reservedWords hmem) (hrest.any_head rfl rfl rfl) hcompound
    have hall : (Keyword.compounds.all fun k => k.parts.head? != some "NULL" &&
      k.parts.head? != some "TRUE" && k.parts.head? != some "FALSE") = true := by decide
    have := all_eq_true.mp hall k hk
    rw [hparts] at this
    simp only [mem_cons, not_mem_nil, or_false] at hword
    rcases hword with rfl | rfl | rfl <;> cases this

/-- A placeholder with its number, which fits. -/
theorem scans_placeholder {i : Nat} (hi : i < unsignedBound) :
    Scans previous holes ('%' :: '(' :: (Nat.toDigits 10 i ++ [')', 's'])) rest (.placeholder i)
      (max holes (i + 1)) := by
  have hspells : Spells holes _ _ := .numbered Nat.toDigits_ne_nil (@isDigit_of_mem_toDigits i)
  rw [digitsValue_toDigits] at hspells
  exact (Scan.Simple.hole hspells (.inr hi)).scans rfl

end

end DocSql
