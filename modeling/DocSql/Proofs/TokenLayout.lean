import DocSql.Proofs.LexemeSpelling
import DocSql.Proofs.TokenLevels

/-! # The text of tokens

The text of a level is the texts of the tokens that it is written out as, with blanks between them
(`laid_flatAll`).
-/
namespace DocSql

open Text List

namespace Token

/-! ### Layout -/

/-- The text of the tokens with blanks before them.  Only a comma may stand without, and the first
token where `first` allows it. -/
inductive Laid : Bool → List Token → List Char → Prop
  | nil {first : Bool} {gap : List Char} (blanks : ∀ c ∈ gap, c = ' ') : Laid first [] gap
  | cons {first : Bool} {t : Token} {tokens : List Token} {gap text : List Char}
    (blanks : ∀ c ∈ gap, c = ' ')
    (apart : first = true ∨ gap ≠ [] ∨ t = .punctuation ',') (more : Laid false tokens text) :
    Laid first (t :: tokens) (gap ++ (t.text.toList ++ text))

namespace Laid

variable {first : Bool} {tokens tokens' : List Token} {text text' : List Char}

theorem behind_blanks {gap : List Char} (h : Laid false tokens text)
    (hgap : ∀ c ∈ gap, c = ' ') : Laid first tokens (gap ++ text) := by
  cases h with
  | nil blanks => exact .nil (forall_mem_append.mpr ⟨hgap, blanks⟩)
  | cons blanks apart more =>
    rw [← append_assoc]
    refine .cons (forall_mem_append.mpr ⟨hgap, blanks⟩) (.inr ?_) more
    rcases apart with hfirst | hne | hcomma
    · cases hfirst
    · exact .inl fun hnil => hne (append_eq_nil_iff.mp hnil).2
    · exact .inr hcomma

theorem spaced (h : Laid first tokens text) : Laid false tokens (' ' :: text) := by
  cases h with
  | nil blanks => exact .nil (forall_mem_cons.mpr ⟨rfl, blanks⟩)
  | @cons _ _ _ gap _ blanks apart more =>
    rw [← cons_append]
    exact .cons (forall_mem_cons.mpr ⟨rfl, blanks⟩) (.inr (.inl (cons_ne_nil _ _))) more

theorem append (h : Laid first tokens text) (h' : Laid false tokens' text') :
    Laid first (tokens ++ tokens') (text ++ text') := by
  induction h with
  | nil blanks => exact h'.behind_blanks blanks
  | cons blanks apart more ih =>
    rw [append_assoc, append_assoc]
    exact .cons blanks apart ih

theorem single (t : Token) : Laid true [t] t.text.toList := by
  have h : Laid true [t] ([] ++ (t.text.toList ++ [])) :=
    .cons (forall_mem_nil _) (.inl rfl) (.nil (forall_mem_nil _))
  simpa using h

theorem comma : Laid false [.punctuation ','] [','] := by
  have h : Laid false [.punctuation ','] ([] ++ ([','] ++ [])) :=
    .cons (forall_mem_nil _) (.inr (.inr rfl)) (.nil (forall_mem_nil _))
  exact h

end Laid

mutual

theorem laid_flat : ∀ t, Laid true (flat t) t.text.toList
  | .comparison left op right | .operation left op right => by
    have h := (laid_flat left).append
      ((Laid.single (.operator op.text)).spaced.append (laid_flat right).spaced)
    simpa [flat, text] using h
  | .caseOf operand arms => by
    have hoperand : Laid false (flatAll operand)
        ((if operand.isEmpty then "" else " ") ++ textAll operand).toList := by
      cases operand with
      | nil => exact .nil (forall_mem_nil _)
      | cons t rest => simpa using (laid_flatAll (t :: rest)).spaced
    have h := (Laid.single (.keyword .CASE)).append
      (hoperand.append ((laid_flatArms arms).append (Laid.single (.keyword .END)).spaced))
    simpa [flat, text, Keyword.text] using h
  | .aliased t label => by
    have h := (laid_flat t).append
      ((Laid.single (.keyword .AS)).spaced.append (Laid.single (.name none label)).spaced)
    simpa [flat, text, Keyword.text] using h
  | .keyword k => .single (.keyword k)
  | .name qualifier column => .single (.name qualifier column)
  | .literal l => .single (.literal l)
  | .placeholder i => .single (.placeholder i)
  | .wildcard => .single .wildcard
  | .punctuation c => .single (.punctuation c)
  | .operator op => .single (.operator op)
  | .paren inner => .single (.paren inner)
  | .call fn args => .single (.call fn args)

theorem laid_flatAll : ∀ tokens, Laid true (flatAll tokens) (textAll tokens).toList
  | [] => .nil (forall_mem_nil _)
  | t :: rest => by
    rw [flatAll, textAll, String.toList_append]
    exact (laid_flat t).append (laid_flatMore rest)

theorem laid_flatMore : ∀ tokens, Laid false (flatAll tokens) (textMore tokens).toList
  | [] => .nil (forall_mem_nil _)
  | t :: rest => by
    rw [flatAll, textMore, String.toList_append]
    refine Laid.append ?_ (laid_flatMore rest)
    split
    · rename_i hcomma
      obtain rfl := isPunctuation_iff.mp hcomma
      exact .comma
    · rw [String.toList_append]
      exact (laid_flat t).spaced

theorem laid_flatArms : ∀ arms, Laid false (flatArms arms) (textArms arms).toList
  | .done => .nil (forall_mem_nil _)
  | .otherwise body => by
    have h := (Laid.single (.keyword .ELSE)).spaced.append (laid_flatAll body).spaced
    simpa [flatArms, textArms, text, Keyword.text] using h
  | .arm condition result rest => by
    have h := (Laid.single (.keyword .WHEN)).spaced.append ((laid_flatAll condition).spaced.append
      ((Laid.single (.keyword .THEN)).spaced.append
        ((laid_flatAll result).spaced.append (laid_flatArms rest))))
    simpa [flatArms, textArms, text, Keyword.text] using h

end

theorem laid_flatArgs : ∀ args, Laid true (flatArgs args) (textArgs args).toList
  | [] => .nil (forall_mem_nil _)
  | [arg] => laid_flatAll arg
  | arg :: arg' :: rest => by
    have h := (laid_flatAll arg).append (Laid.comma.append (laid_flatArgs (arg' :: rest)).spaced)
    simpa [flatArgs, textArgs] using h

/-! ### Compound keywords in a layout -/

/-- Whether the token itself can be read again: floating-point numbers, quotes in names and aliases,
and placeholders whose number is no 64-bit one are excepted. -/
def Legible : Token → Prop
  | .literal (.float _) => False
  | .name qualifier column => (∀ table ∈ qualifier, '\x22' ∉ table.toList) ∧ '\x22' ∉ column.toList
  | .placeholder i => i < unsignedBound
  | .aliased _ label => '\x22' ∉ label.toList
  | _ => True

/-- No keywords side by side spell a compound one. -/
def Runless (tokens : List Token) : Prop :=
  ∀ k ∈ Keyword.compounds, ∀ run : List Keyword, run.map Keyword.text = k.parts →
    ¬ run.map .keyword <:+: tokens

theorem isDelimiter_of_isWordChar {c : Char} (h : Scan.isWordChar c = true) : isDelimiter c = false := by
  rw [Bool.eq_false_iff]
  intro hc
  simp only [isDelimiter, Bool.or_eq_true, decide_eq_true_eq] at hc
  rcases hc with (((rfl | rfl) | rfl) | rfl) | hc
  · cases h
  · cases h
  · cases h
  · cases h
  · rw [Scan.stops_isWordChar.blank c hc] at h
    cases h

theorem toList_text_name (column : String) :
    (text (.name none column)).toList = '\x22' :: (column.toList ++ ['\x22']) := by
  simp [text]

theorem toList_text_qualified (table column : String) : (text (.name (some table) column)).toList =
    '\x22' :: (table.toList ++ '\x22' :: '.' :: '\x22' :: (column.toList ++ ['\x22'])) := by
  simp [text]

theorem toList_text_placeholder (i : Nat) :
    (text (.placeholder i)).toList = '%' :: '(' :: (Nat.toDigits 10 i ++ [')', 's']) := by
  simp [text]

theorem toList_text_nat (n : Nat) : (text (.literal (.int n))).toList = Nat.toDigits 10 n :=
  Nat.toList_repr

theorem toList_text_negative (n : Nat) :
    (text (.literal (.int (.negSucc n)))).toList = '-' :: Nat.toDigits 10 (n + 1) := by
  show ("-" ++ (n + 1).repr).toList = _
  simp

theorem toList_text_paren (inner : List Token) :
    (text (.paren inner)).toList = '(' :: ((textAll inner).toList ++ [')']) := by
  simp [text]

theorem toList_text_call (fn : String) (args : List (List Token)) :
    (text (.call fn args)).toList = fn.toList ++ '(' :: ((textArgs args).toList ++ [')']) := by
  simp [text]

/-- Whether the token starts with a word. -/
def isWord : Token → Bool
  | .keyword _ | .call .. | .literal .null | .literal (.bool _) => true
  | _ => false

section

variable {keyed : Bool} {t : Token}

set_option maxRecDepth 8000 in
theorem Keyword.text_eq_cons (k : Keyword) : ∃ c cs, k.text.toList = c :: cs ∧ isBlank c = false := by
  have hall : ((Keyword.words ++ Keyword.compounds).all fun k =>
    k.text.toList.head?.any fun c => !isBlank c) = true := by decide
  have hk := all_eq_true.mp hall k (mem_append.mpr k.mem_words_or_compounds)
  cases htext : k.text.toList with
  | nil =>
    rw [htext] at hk
    cases hk
  | cons c cs =>
    rw [htext] at hk
    exact ⟨c, cs, rfl, by simpa using hk⟩

/-- Only words start with a letter. -/
theorem Settled.text_eq_cons (h : Settled keyed t) (hlegible : Legible t) :
    ∃ c cs, t.text.toList = c :: cs ∧ isBlank c = false ∧ (c.isAlpha = true → t.isWord = true) := by
  cases h with
  | keyword k =>
    obtain ⟨c, cs, htext, hblank⟩ := Keyword.text_eq_cons k
    exact ⟨c, cs, htext, hblank, fun _ => rfl⟩
  | name qualifier column =>
    cases qualifier with
    | none => exact ⟨_, _, toList_text_name column, rfl, nofun⟩
    | some table => exact ⟨_, _, toList_text_qualified table column, rfl, nofun⟩
  | @literal l fits =>
    cases l with
    | null => exact ⟨_, _, rfl, rfl, fun _ => rfl⟩
    | bool b => cases b <;> exact ⟨_, _, rfl, rfl, fun _ => rfl⟩
    | int n =>
      cases n with
      | ofNat n =>
        obtain ⟨d, digits, hn⟩ := exists_cons_of_ne_nil (@Nat.toDigits_ne_nil n 10)
        have hd : d.isDigit = true := isDigit_of_mem_toDigits d (by rw [hn]; exact mem_cons_self)
        refine ⟨d, digits, (toList_text_nat n).trans hn, Scan.stops_isDigit.not_blank hd, fun h => ?_⟩
        rw [not_isAlpha_of_isDigit hd] at h
        cases h
      | negSucc n => exact ⟨_, _, toList_text_negative n, rfl, nofun⟩
    | float x => exact hlegible.elim
    | string s => exact ⟨_, _, String.toList_ofList, rfl, nofun⟩
  | placeholder i => exact ⟨_, _, toList_text_placeholder i, rfl, nofun⟩
  | wildcard => exact ⟨_, _, rfl, rfl, nofun⟩
  | punctuation mark => rcases mark with rfl | rfl <;> exact ⟨_, _, rfl, rfl, nofun⟩
  | @operator op sign =>
    have hmem : op ∈ "*" :: operatorSigns := mem_cons.mpr sign.symm
    have hall : (("*" :: operatorSigns).all fun op =>
      op.toList.head?.any fun c => !isBlank c && !c.isAlpha) = true := by decide
    have hop := all_eq_true.mp hall op hmem
    cases htext : op.toList with
    | nil =>
      rw [htext] at hop
      cases hop
    | cons c cs =>
      rw [htext] at hop
      simp only [head?_cons, Option.any_some, Bool.and_eq_true, Bool.not_eq_true'] at hop
      refine ⟨c, cs, htext, hop.1, fun h => ?_⟩
      rw [hop.2] at h
      cases h
  | paren => exact ⟨_, _, toList_text_paren _, rfl, nofun⟩
  | @call fn args name =>
    obtain ⟨⟨c, cs, hc, hfirst, -⟩, -⟩ := name
    rw [toList_text_call, hc]
    exact ⟨c, _, rfl, Scan.stops_isWordChar.not_blank (Scan.isWordChar_of_isLetter hfirst), fun _ => rfl⟩

theorem isDelimiter_of_isAlpha {c : Char} (h : c.isAlpha = true) : isDelimiter c = false :=
  isDelimiter_of_isWordChar (Scan.isWordChar_of_isLetter (.inl (Scan.isLetter_of_isAlpha h)))

/-- A reserved word is the first one of the text that it starts. -/
theorem outline_reserved {word : String} (hword : word ∈ Scan.reservedWords) (rest : List Char) :
    (∀ c ∈ word.toList, isDelimiter c = false) ∧
      outline false (word.toList ++ rest) = word.toList ++ outline false rest := by
  have hupper := toUpper_of_mem_reservedWords hword
  exact ⟨fun c hc => isDelimiter_of_isAlpha (hupper c hc).1, outline_word hupper⟩

/-- A name is the first word of the text that it starts, where a parenthesis follows. -/
theorem outline_name {name : String} (hname : Scan.IsName name) (rest : List Char) :
    (∀ c ∈ name.toUpper.toList, isDelimiter c = false) ∧
      outline false (name.toList ++ '(' :: rest) = name.toUpper.toList ++ '(' :: outline false rest := by
  obtain ⟨⟨c, cs, hc, hfirst, hmore⟩, -⟩ := hname
  have hchars : ∀ d ∈ name.toList, Scan.isWordChar d = true := by
    rw [hc]
    exact forall_mem_cons.mpr ⟨Scan.isWordChar_of_isLetter hfirst, hmore⟩
  have hblank : ∀ d ∈ name.toList, isBlank d = false :=
    fun d hd => Scan.stops_isWordChar.not_blank (hchars d hd)
  rw [Scan.toList_toUpper]
  refine ⟨fun d hd => ?_, ?_⟩
  · obtain ⟨e, he, rfl⟩ := mem_map.mp hd
    rw [isDelimiter_toUpper]
    exact isDelimiter_of_isWordChar (hchars e he)
  · rw [outline_append, outline_eq_map hblank, endsBlank_of_not_blank hblank, outline_cons_of_not_blank rfl]
    rfl

/-- Where a word that goes on with a compound keyword is read, the token is this word. -/
theorem Settled.keyword_of_outline (h : Settled keyed t) (hlegible : Legible t) {word : String}
    (hword : word = "OUTER" ∨ word = "JOIN") {rest tail : List Char} (hrest : Ended rest)
    (htail : tail.head?.all isDelimiter = true)
    (houtline : outline false (t.text.toList ++ rest) = word.toList ++ tail) :
    ∃ k ∈ Keyword.words, t = .keyword k ∧ k.text = word ∧ outline false rest = tail := by
  have hreserved : word ∈ Scan.reservedWords := by rcases hword with rfl | rfl <;> decide
  have hletters := toUpper_of_mem_reservedWords hreserved
  -- the first word is all that stands before a delimiter
  have hunique {first : String} {more : List Char} (hfirst : ∀ c ∈ first.toList, isDelimiter c = false)
      (hmore : more.head?.all isDelimiter = true)
      (h : outline false (t.text.toList ++ rest) = first.toList ++ more) :
      first = word ∧ more = tail := by
    have hstop {more : List Char} (h : more.head?.all isDelimiter = true) :
        more.head?.any (fun c => !isDelimiter c) = false := by cases more <;> simp_all
    obtain ⟨hrun, hmore⟩ := append_inj_of_run (p := fun c => !isDelimiter c) (by simpa using hfirst)
      (fun c hc => by simp [isDelimiter_of_isAlpha (hletters c hc).1]) (hstop hmore) (hstop htail)
      (h.symm.trans houtline)
    exact ⟨String.toList_inj.mp hrun, hmore⟩
  have hreservedText {first : String} (hfirst : first ∈ Scan.reservedWords) (htext : t.text = first) :
      first = word ∧ outline false rest = tail := by
    obtain ⟨hrun, heq⟩ := outline_reserved hfirst rest
    refine hunique hrun ?_ (htext ▸ heq)
    rw [all_head_outline]
    exact hrest.all_isDelimiter
  have hliteral (first : String) (hmem : first ∈ ["NULL", "TRUE", "FALSE"]) (htext : t.text = first) :
      False := by
    obtain ⟨rfl, -⟩ := hreservedText (mem_append_left _ hmem) htext
    rcases hword with rfl | rfl <;> exact absurd hmem (by decide)
  have hstart : t.isWord = true := by
    obtain ⟨c, cs, htext, hblank, hstart⟩ := h.text_eq_cons hlegible
    refine hstart ?_
    rw [htext, cons_append, outline_cons_of_not_blank hblank] at houtline
    obtain ⟨d, ds, hd⟩ := exists_cons_of_ne_nil (Scan.reservedWords_isAlpha hreserved).1
    rw [hd] at houtline hletters
    rw [← Scan.isAlpha_toUpper, (cons.inj houtline).1]
    exact (hletters d mem_cons_self).1
  cases h with
  | keyword k =>
    rcases k.mem_words_or_compounds with hk | hk
    · obtain ⟨heq, hmore⟩ := hreservedText (text_mem_reservedWords hk) rfl
      exact ⟨k, hk, rfl, heq, hmore⟩
    · obtain ⟨-, first, next, more, tail', hparts, hcompound, -⟩ :=
        outline_of_compound? (compound?_append hk (outline_text hk) hrest.all_isDelimiter)
      obtain ⟨-, -, -, -, -, hwords, -⟩ := Keyword.parts_compound hk
      have hfirst := (hwords first (hparts ▸ mem_cons_self)).2
      obtain ⟨rfl, -⟩ := hunique (fun c hc => isDelimiter_of_isAlpha (hfirst c hc)) rfl hcompound
      have hall : (Keyword.compounds.all fun k =>
        k.parts.head? != some "OUTER" && k.parts.head? != some "JOIN") = true := by decide
      have := all_eq_true.mp hall k hk
      rw [hparts] at this
      rcases hword with rfl | rfl <;> cases this
  | @literal l fits =>
    cases l with
    | null => exact (hliteral "NULL" (by decide) rfl).elim
    | bool b =>
      cases b with
      | true => exact (hliteral "TRUE" (by decide) rfl).elim
      | false => exact (hliteral "FALSE" (by decide) rfl).elim
    | int | float | string => cases hstart
  | @call fn args name =>
    obtain ⟨hrun, heq⟩ := outline_name name ((textArgs args).toList ++ ')' :: rest)
    have hupper := (hunique hrun rfl (by
      rw [toList_text_call, ← heq]
      simp)).1
    have hname := name.no_keyword
    rw [Scan.ofWord, hupper] at hname
    rcases hword with rfl | rfl <;> cases hname
  | name | placeholder | wildcard | punctuation | operator | paren => cases hstart

end

namespace Laid

variable {first : Bool} {tokens : List Token} {text after : List Char}

theorem isBlank_of_space {gap : List Char} (h : ∀ c ∈ gap, c = ' ') : ∀ c ∈ gap, isBlank c = true :=
  fun c hc => h c hc ▸ rfl

/-- A layout ends what stands before it. -/
theorem ended (h : Laid false tokens text) (hafter : Ended after) : Ended (text ++ after) := by
  cases h with
  | nil blanks =>
    cases text with
    | nil => exact hafter
    | cons c gap =>
      obtain rfl := blanks c mem_cons_self
      rfl
  | @cons _ t _ gap _ blanks apart more =>
    cases gap with
    | cons c gap =>
      obtain rfl := blanks c mem_cons_self
      rfl
    | nil =>
      rcases apart with hfirst | hne | rfl
      · cases hfirst
      · exact absurd rfl hne
      · rfl

theorem outline_spaces {gap rest : List Char} (hgap : ∀ c ∈ gap, c = ' ')
    (hrest : rest.head?.any isBlank = false) :
    outline false (gap ++ rest) = (if gap = [] then [] else [' ']) ++ outline false rest := by
  rw [outline_append, outline_blanks (isBlank_of_space hgap), outline_of_head hrest]
  simp

/-- Nothing or a closing parenthesis comes behind a level. -/
def Closed (after : List Char) : Prop := after = [] ∨ ∃ rest, after = ')' :: rest

theorem Closed.ended (h : Closed after) : Ended after := by
  rcases h with rfl | ⟨rest, rfl⟩ <;> rfl

theorem Closed.not_blank (h : Closed after) : after.head?.any isBlank = false := by
  rcases h with rfl | ⟨rest, rfl⟩ <;> rfl

/-- Where the outline of a layout goes on with words of a compound keyword, they are its first
tokens. -/
theorem run_of_outline {keyed : Bool} (h : Laid false tokens text)
    (hsettled : ∀ t ∈ tokens, Settled keyed t) (hlegible : ∀ t ∈ tokens, Legible t)
    (hafter : Closed after) {words : List String} {tail : List Char}
    (hwords : ∀ word ∈ words, word = "OUTER" ∨ word = "JOIN") (htail : tail.head?.all isDelimiter = true)
    (houtline : outline false (text ++ after) = DocSql.spaced words ++ tail) :
    ∃ run : List Keyword, run.map Keyword.text = words ∧ run.map .keyword <+: tokens := by
  induction words generalizing tokens text with
  | nil => exact ⟨[], rfl, nil_prefix⟩
  | cons word words ih =>
    obtain ⟨hword, hwords⟩ := forall_mem_cons.mp hwords
    rw [show DocSql.spaced (word :: words) = [' '] ++ (word.toList ++ DocSql.spaced words) from rfl,
      append_assoc, append_assoc] at houtline
    cases h with
    | nil blanks =>
      rw [outline_spaces blanks hafter.not_blank] at houtline
      -- behind the level there is neither a blank nor a word
      rcases hafter with rfl | ⟨rest, rfl⟩ <;> split at houtline <;> rcases hword with rfl | rfl <;>
        cases houtline
    | @cons _ t tokens gap more blanks apart hmore =>
      obtain ⟨ht, hsettledMore⟩ := forall_mem_cons.mp hsettled
      obtain ⟨hlegibleT, hlegibleMore⟩ := forall_mem_cons.mp hlegible
      obtain ⟨c, cs, htext, hblank, -⟩ := ht.text_eq_cons hlegibleT
      have hhead : (t.text.toList ++ (more ++ after)).head?.any isBlank = false := by
        rw [htext]
        exact hblank
      rw [append_assoc, append_assoc, outline_spaces blanks hhead] at houtline
      split at houtline
      · rename_i hnil
        rcases apart with hfirst | hne | rfl
        · cases hfirst
        · exact absurd hnil hne
        · cases (cons.inj houtline).1
      · have htail' : (DocSql.spaced words ++ tail).head?.all isDelimiter = true := by
          cases words with
          | nil => exact htail
          | cons => rfl
        obtain ⟨k, hk, rfl, htext, houtline⟩ := ht.keyword_of_outline hlegibleT hword
          (hmore.ended hafter.ended) htail' (cons.inj houtline).2
        obtain ⟨run, hrun, hprefix⟩ := ih hmore hsettledMore hlegibleMore hwords houtline
        exact ⟨k :: run, by rw [map_cons, htext, hrun], cons_prefix_cons.mpr ⟨rfl, hprefix⟩⟩

set_option maxRecDepth 8000 in
/-- A keyword of a single word is not read on into the tokens behind it. -/
theorem compound?_eq_none {keyed : Bool} {k : Keyword} (hk : k ∈ Keyword.words)
    (h : Laid false tokens text) (hsettled : ∀ t ∈ tokens, Settled keyed t)
    (hlegible : ∀ t ∈ tokens, Legible t) (hrun : Runless (.keyword k :: tokens))
    (hafter : Closed after) : compound? (k.text.toList ++ (text ++ after)) = none := by
  cases hcompound : compound? (k.text.toList ++ (text ++ after)) with
  | none => rfl
  | some result =>
    obtain ⟨k', n⟩ := result
    obtain ⟨hk', next, more, tail, hparts, houtline, htail⟩ := outline_rest_of_compound?
      (toUpper_of_mem_reservedWords (text_mem_reservedWords hk))
      ((h.ended hafter.ended).any_head rfl rfl rfl) hcompound
    have hall : (Keyword.compounds.all fun k' =>
        !(Keyword.words.any fun k => k'.parts.head? == some k.text) ||
        k'.parts.tail.all fun word => word == "OUTER" || word == "JOIN") = true := by decide
    have hwords : ∀ word ∈ next :: more, word = "OUTER" ∨ word = "JOIN" := by
      have hk' := all_eq_true.mp hall k' hk'
      have hany : (Keyword.words.any fun k => k'.parts.head? == some k.text) = true := by
        refine any_eq_true.mpr ⟨k, hk, ?_⟩
        rw [hparts]
        exact beq_self_eq_true _
      rw [hany, hparts] at hk'
      simpa using hk'
    obtain ⟨run, hrunText, hprefix⟩ := h.run_of_outline hsettled hlegible hafter hwords htail houtline
    refine absurd (cons_prefix_cons.mpr ⟨rfl, hprefix⟩).isInfix (hrun k' hk' (k :: run) ?_)
    rw [hparts, map_cons, hrunText]

end Laid

end Token

end DocSql
