import DocSql.Proofs.LexemeSpelling
import Mathlib.Data.List.Perm.Basic

/-! # What a keyword matches

A keyword is written in capitals or small letters, with any run of blanks for each of its spaces:
`KeywordSpelling` says which texts are such writings of it, without saying where a run of blanks stops.
Matching takes all blanks it finds before it goes on.  That is no loss, since a word never starts with
a blank: a keyword matches exactly its writings, before the end of a text or a delimiter
(`matchWord_exact`).  No compound keyword starts with another one, so the order in which they are tried
does not matter.
-/
namespace DocSql

open Text List

/-! ### Keywords and their writings -/

/-- The text is a writing of the keyword: its letters in either case, and a run of blanks, at least
one, for each of its spaces. -/
inductive KeywordSpelling : List Char → List Char → Prop
  | done : KeywordSpelling [] []
  | letter {w c : Char} {keyword text : List Char} (solid : w ≠ ' ') (same : c.toUpper = w.toUpper)
    (rest : KeywordSpelling keyword text) : KeywordSpelling (w :: keyword) (c :: text)
  | gap {keyword run text : List Char} (some_blank : run ≠ [])
    (blanks : ∀ c ∈ run, isBlank c = true) (rest : KeywordSpelling keyword text) :
    KeywordSpelling (' ' :: keyword) (run ++ text)

/-- A word of a keyword: ASCII characters, at least one, and no blank among them. -/
structure IsWord (word : List Char) : Prop where
  nonempty : word ≠ []
  ascii : ∀ c ∈ word, c.toNat < 0x80
  solid : ∀ c ∈ word, isBlank c = false

/-- The keyword of the given words, with a single space between them. -/
def keywordOf (words : List (List Char)) : List Char := [' '].intercalate words

theorem keywordOf_cons_cons (word next : List Char) (words : List (List Char)) :
    keywordOf (word :: next :: words) = word ++ ' ' :: keywordOf (next :: words) := by
  simp [keywordOf, intercalate_cons_cons]

theorem head?_keywordOf {word : List Char} (hword : word ≠ []) (words : List (List Char)) :
    (keywordOf (word :: words)).head? = word.head? := by
  cases words with
  | nil => simp [keywordOf]
  | cons next words => rw [keywordOf_cons_cons, head?_append_of_ne_nil _ hword]

theorem ascii_keywordOf {words : List (List Char)} (h : ∀ word ∈ words, IsWord word) :
    ∀ c ∈ keywordOf words, c.toNat < 0x80 := by
  induction words with
  | nil => simp [keywordOf]
  | cons word words ih =>
    obtain ⟨hword, hwords⟩ := forall_mem_cons.mp h
    cases words with
    | nil => simpa [keywordOf] using hword.ascii
    | cons next words =>
      rw [keywordOf_cons_cons]
      exact forall_mem_append.mpr
        ⟨hword.ascii, forall_mem_cons.mpr ⟨by decide, ih hwords⟩⟩

/-- The only blanks are spaces, and each space has a letter behind it. -/
def Divided : List Char → Prop
  | [] => True
  | w :: ws => (if w = ' ' then ∃ v ∈ ws.head?, isBlank v = false else isBlank w = false) ∧ Divided ws

theorem Divided.append {word rest : List Char} (hword : ∀ c ∈ word, isBlank c = false)
    (hrest : Divided rest) : Divided (word ++ rest) := by
  induction word with
  | nil => exact hrest
  | cons c word ih =>
    obtain ⟨hc, hword⟩ := forall_mem_cons.mp hword
    have hsolid : c ≠ ' ' := by
      rintro rfl
      cases hc
    exact ⟨by rwa [if_neg hsolid], ih hword⟩

theorem divided_keywordOf {words : List (List Char)} (h : ∀ word ∈ words, IsWord word) :
    Divided (keywordOf words) := by
  induction words with
  | nil => trivial
  | cons word words ih =>
    obtain ⟨hword, hwords⟩ := forall_mem_cons.mp h
    cases words with
    | nil =>
      have hdivided : Divided (word ++ []) := .append hword.solid trivial
      simpa [keywordOf] using hdivided
    | cons next words =>
      rw [keywordOf_cons_cons]
      refine .append hword.solid ⟨?_, ih hwords⟩
      obtain ⟨hnext, -⟩ := forall_mem_cons.mp hwords
      obtain ⟨c, cs, rfl⟩ := exists_cons_of_ne_nil hnext.nonempty
      rw [if_pos rfl, head?_keywordOf hnext.nonempty]
      exact ⟨c, rfl, hnext.solid c mem_cons_self⟩

/-- The compound keywords are made of words. -/
theorem Keyword.text_compound {k : Keyword} (hk : k ∈ Keyword.compounds) :
    k.text.toList = keywordOf (k.parts.map String.toList) ∧
      ∀ word ∈ k.parts.map String.toList, IsWord word := by
  obtain ⟨first, next, more, hparts, -, hwords, htext⟩ := Keyword.parts_compound hk
  refine ⟨by rw [← htext, String.toList_intercalate]; rfl, ?_⟩
  simp only [forall_mem_map]
  intro word hword
  obtain ⟨hne, halpha⟩ := hwords word hword
  refine ⟨hne, fun c hc => ?_, fun c hc => not_isBlank_of_isAlpha (halpha c hc)⟩
  have hcode := Scan.toNat_of_isAlpha (halpha c hc)
  omega

theorem Divided.blank_eq_space {keyword : List Char} (h : Divided keyword) :
    ∀ w ∈ keyword, isBlank w = true → w = ' ' := by
  induction keyword with
  | nil => exact forall_mem_nil _
  | cons w ws ih =>
    refine forall_mem_cons.mpr ⟨fun hblank => ?_, ih h.2⟩
    by_contra hspace
    have hsolid := h.1
    rw [if_neg hspace, hblank] at hsolid
    cases hsolid

theorem uppercase_of_ascii {text : List Char} (h : ∀ c ∈ text, c.toNat < 0x80) :
    Text.uppercase text = text.map Char.toUpper := by
  induction text with
  | nil => rfl
  | cons c cs ih =>
    obtain ⟨hc, hcs⟩ := forall_mem_cons.mp h
    have hupper : upper c = [c.toUpper] := if_pos hc
    rw [Text.uppercase, flatMap_cons, hupper, map_cons, ← ih hcs]
    rfl

/-! ### Matching a keyword -/

section

variable {keyword piece rest text : List Char}

/-- A text that has the capitals of a keyword for its outline is a writing of it. -/
theorem KeywordSpelling.of_outline (hkeyword : ∀ w ∈ keyword, isBlank w = true → w = ' ')
    (h : outline false piece = keyword.map Char.toUpper) : KeywordSpelling keyword piece := by
  induction keyword generalizing piece with
  | nil =>
    rw [eq_nil_of_outline h]
    exact .done
  | cons w keyword ih =>
    obtain ⟨hw, hletters⟩ := forall_mem_cons.mp hkeyword
    cases piece with
    | nil => cases h
    | cons c cs =>
      cases hc : isBlank c with
      | true =>
        rw [outline_cons_of_blank hc] at h
        obtain ⟨hspace, hrest⟩ := cons.inj h
        change outline true cs = _ at hrest
        obtain rfl : w = ' ' := by
          refine hw (Bool.eq_true_of_not_eq_false fun hsolid => ?_)
          exact toUpper_ne_space hsolid hspace.symm
        rw [← outline_drop_blanks] at hrest
        rw [← takeWhile_append_drop cs, ← cons_append]
        refine .gap (cons_ne_nil _ _) ?_ (ih hletters hrest)
        exact forall_mem_cons.mpr ⟨hc, isBlank_of_mem_takeWhile cs⟩
      | false =>
        rw [outline_cons_of_not_blank hc] at h
        obtain ⟨hsame, hrest⟩ := cons.inj h
        refine .letter ?_ hsame (ih hletters hrest)
        rintro rfl
        exact toUpper_ne_space hc hsame

/-- A writing of what starts with a letter starts with no blank. -/
theorem KeywordSpelling.exists_letter (h : KeywordSpelling keyword piece)
    (hletter : ∃ v ∈ keyword.head?, isBlank v = false) :
    ∃ c cs, piece = c :: cs ∧ isBlank c = false := by
  obtain ⟨v, hv, hsolid⟩ := hletter
  cases h with
  | done => cases hv
  | @letter w c keyword text _ same =>
    obtain rfl := Option.some.inj hv
    exact ⟨c, text, rfl, by rw [← isBlank_toUpper, same, isBlank_toUpper, hsolid]⟩
  | gap =>
    obtain rfl := Option.some.inj hv
    cases hsolid

/-- A keyword takes any writing of it, where a word may end behind it. -/
theorem KeywordSpelling.matchCapitals_append (h : KeywordSpelling keyword piece)
    (hkeyword : Divided keyword) (hend : rest.head?.all isDelimiter = true) :
    matchCapitals (keyword.map Char.toUpper) (piece ++ rest) = some piece.length := by
  induction h with
  | done =>
    rw [map_nil, nil_append, matchCapitals.eq_def]
    cases rest with
    | nil => rfl
    | cons c cs => exact if_pos hend
  | @letter w c keyword text solid same _ ih =>
    have hw : isBlank w = false := by simpa [solid] using hkeyword.1
    rw [map_cons, cons_append, matchCapitals.eq_def]
    simp only
    rw [if_neg (toUpper_ne_space hw), if_pos same, ih hkeyword.2]
    rfl
  | @gap keyword run text some_blank blanks spelled ih =>
    obtain ⟨c, run, rfl⟩ := exists_cons_of_ne_nil some_blank
    obtain ⟨hc, hrun⟩ := forall_mem_cons.mp blanks
    -- the blanks stop where the run does, since the next word follows
    obtain ⟨d, word, rfl, hd⟩ := spelled.exists_letter (by simpa using hkeyword.1)
    have htake : (run ++ (d :: word ++ rest)).takeWhile isBlank = run :=
      Scan.takeWhile_append_eq_iff.mpr ⟨hrun, hd⟩
    rw [map_cons, append_assoc, cons_append, matchCapitals.eq_def]
    simp only [show Char.toUpper ' ' = ' ' from rfl, if_true, hc, htake, drop_left, ih hkeyword.2,
      Option.map_some, length_append, length_cons]
    exact congrArg some (by omega)

/-- A keyword matches exactly its writings, where a word may end behind them. -/
theorem matchWord_eq_some_iff (hascii : ∀ c ∈ keyword, c.toNat < 0x80) (hkeyword : Divided keyword)
    {n : Nat} : matchWord keyword text = some n ↔
      ∃ piece rest, text = piece ++ rest ∧ piece.length = n ∧ KeywordSpelling keyword piece ∧
        rest.head?.all isDelimiter = true := by
  rw [matchWord, uppercase_of_ascii hascii]
  constructor
  · intro h
    have hspaces : ∀ w ∈ keyword.map Char.toUpper, isBlank w = true → w = ' ' := by
      simp only [forall_mem_map]
      intro w hw hblank
      rw [hkeyword.blank_eq_space w hw (by rwa [isBlank_toUpper] at hblank)]
      rfl
    obtain ⟨piece, rest, htext, hlength, houtline, hend⟩ := matchCapitals_eq_some hspaces h
    exact ⟨piece, rest, htext, hlength, .of_outline hkeyword.blank_eq_space houtline, hend⟩
  · rintro ⟨piece, rest, rfl, rfl, hspelling, hend⟩
    exact hspelling.matchCapitals_append hkeyword hend

end

/-! ### The order of the keywords -/

/-- A search in which only one candidate can be found does not depend on the order. -/
theorem findSome?_perm {α β : Type} {f : α → Option β} {l l' : List α} (hperm : l'.Perm l)
    (hunique : ∀ a ∈ l, ∀ b ∈ l, (f a).isSome = true → (f b).isSome = true → a = b) :
    l'.findSome? f = l.findSome? f := by
  cases hfound : l'.findSome? f with
  | none =>
    symm
    rw [findSome?_eq_none_iff] at hfound ⊢
    exact fun a ha => hfound a (hperm.mem_iff.mpr ha)
  | some b =>
    obtain ⟨a, ha, hb⟩ := exists_of_findSome?_eq_some hfound
    have ha := hperm.mem_iff.mp ha
    have hsome : (l.findSome? f).isSome = true :=
      findSome?_isSome_iff.mpr ⟨a, ha, Option.isSome_of_eq_some hb⟩
    obtain ⟨b', hfound'⟩ := Option.isSome_iff_exists.mp hsome
    obtain ⟨a', ha', hb'⟩ := exists_of_findSome?_eq_some hfound'
    obtain rfl := hunique a ha a' ha' (Option.isSome_of_eq_some hb) (Option.isSome_of_eq_some hb')
    rw [hfound', ← hb, ← hb']

/-- The keyword stands at a place of the text, with the given number of characters: they are a writing
of it, and the text ends behind them or goes on with a blank, a comma, a parenthesis or a semicolon. -/
structure StandsAt (keyword text : List Char) (position n : Nat) : Prop where
  inside : n ≤ (text.drop position).length
  spells : KeywordSpelling keyword ((text.drop position).take n)
  ends : ∀ c ∈ text[position + n]?, isBlank c = true ∨ c = ',' ∨ c = '(' ∨ c = ')' ∨ c = ';'

theorem isDelimiter_iff {c : Char} : isDelimiter c = true ↔
    isBlank c = true ∨ c = ',' ∨ c = '(' ∨ c = ')' ∨ c = ';' := by
  simp only [isDelimiter, Bool.or_eq_true, decide_eq_true_eq]
  tauto

theorem standsAt_iff {keyword text : List Char} {position n : Nat} :
    StandsAt keyword text position n ↔
      ∃ piece rest, text.drop position = piece ++ rest ∧ piece.length = n ∧
        KeywordSpelling keyword piece ∧ rest.head?.all isDelimiter = true := by
  have hnext (piece rest : List Char) (htext : text.drop position = piece ++ rest) :
      text[position + piece.length]? = rest.head? := by
    rw [← getElem?_drop, htext, getElem?_append_right (Nat.le_refl _), Nat.sub_self,
      head?_eq_getElem?]
  constructor
  · intro h
    have hsplit := (take_append_drop n (text.drop position)).symm
    have hlength : ((text.drop position).take n).length = n := length_take_of_le h.inside
    refine ⟨_, _, hsplit, hlength, h.spells, ?_⟩
    rw [← hnext _ _ hsplit, hlength, Option.all_eq_true]
    exact fun c hc => isDelimiter_iff.mpr (h.ends c hc)
  · rintro ⟨piece, rest, htext, rfl, hspells, hend⟩
    refine ⟨by simp [htext], by simpa [htext] using hspells, ?_⟩
    rw [hnext piece rest htext]
    exact fun c hc => isDelimiter_iff.mp ((Option.all_eq_true _ _).mp hend c hc)

/-- A keyword of ASCII words matches at a place of a text with `n` characters exactly if it stands
there with `n` characters, which happens for one `n` at most.  At most one compound keyword matches at
a place, so they can be tried in any order. -/
theorem matchWord_exact {words : List (List Char)} (hwords : ∀ word ∈ words, IsWord word)
    (text : List Char) (position : Nat) :
    (∀ n, matchWord (keywordOf words) (text.drop position) = some n ↔
      StandsAt (keywordOf words) text position n) ∧
    (∀ m n, StandsAt (keywordOf words) text position m →
      StandsAt (keywordOf words) text position n → m = n) ∧
    (∀ k ∈ Keyword.compounds, ∀ k' ∈ Keyword.compounds,
      (matchWord k.text.toList (text.drop position)).isSome = true →
      (matchWord k'.text.toList (text.drop position)).isSome = true → k = k') ∧
    ∀ order : List Keyword, order.Perm Keyword.compounds →
      (order.findSome? fun k => (matchWord k.text.toList (text.drop position)).map fun n => (k, n)) =
        compound? (text.drop position) := by
  have hiff (n : Nat) : matchWord (keywordOf words) (text.drop position) = some n ↔
      StandsAt (keywordOf words) text position n := by
    rw [standsAt_iff, matchWord_eq_some_iff (ascii_keywordOf hwords) (divided_keywordOf hwords)]
  refine ⟨hiff, fun m n hm hn => ?_, fun k hk k' hk' => compound_unique hk hk', fun order horder => ?_⟩
  · exact Option.some.inj (((hiff m).mpr hm).symm.trans ((hiff n).mpr hn))
  · refine findSome?_perm horder fun k hk k' hk' hfound hfound' => ?_
    rw [Option.isSome_map] at hfound hfound'
    exact compound_unique hk hk' hfound hfound'

/-- A keyword in small letters is found in capitals, with three blanks for its space, before a
parenthesis. -/
theorem matchWord_exact_group_by :
    (∀ word ∈ ["group".toList, "by".toList], IsWord word) ∧
    matchWord "group by".toList ("x GROUP \n BY(y".toList.drop 2) = some 10 ∧
    StandsAt (keywordOf ["group".toList, "by".toList]) "x GROUP \n BY(y".toList 2 10 := by
  have hword (word : List Char) (hne : word ≠ []) (hascii : (word.all fun c => c.toNat < 0x80) = true)
      (hsolid : (word.all fun c => !isBlank c) = true) : IsWord word :=
    ⟨hne, by simpa using hascii, by simpa using hsolid⟩
  have hwords : ∀ word ∈ ["group".toList, "by".toList], IsWord word := by
    refine List.forall_mem_cons.mpr ⟨?_, List.forall_mem_singleton.mpr ?_⟩
    · exact hword _ (by decide) (by decide) (by decide)
    · exact hword _ (by decide) (by decide) (by decide)
  have hmatch : matchWord "group by".toList ("x GROUP \n BY(y".toList.drop 2) = some 10 := by decide
  exact ⟨hwords, hmatch, ((matchWord_exact hwords _ 2).1 10).mp hmatch⟩

end DocSql
