import DocSql.Proofs.Lexing
import Mathlib.Data.List.Find
import Mathlib.Data.List.TakeWhile

/-! # Outlines of texts

The outline of a text forgets what division into lexemes should not see: the case of ASCII letters and
which blanks stand in a run of blanks.  A compound keyword stands at the start of a text exactly if the
outline of the text starts with it (`matchCapitals_isSome_iff`), and whether a lexeme goes on into the
text behind it depends on the outline of that text alone (`Alike.endsAlike`).
-/
namespace DocSql
open List

variable {c : Char}

namespace Text

variable {p : Char → Bool} {gap : List Char}

/-! ### Blanks and small letters -/

/-- The code points of the blanks. -/
def blankCodes : List Nat := blankRanges.flatMap fun r => range' r.1 (r.2 + 1 - r.1)

/-- What holds of the listed blanks holds of all. -/
theorem of_isBlank (hall : (blankCodes.all fun n => p (Char.ofNat n)) = true)
    (hc : isBlank c = true) : p c = true := by
  obtain ⟨r, hr, hlow, hhigh⟩ := inRanges_iff.mp hc
  have hcode : c.toNat ∈ blankCodes := by
    refine mem_flatMap.mpr ⟨r, hr, mem_range'.mpr ⟨c.toNat - r.1, ?_, ?_⟩⟩ <;> omega
  rw [← Char.ofNat_toNat c]
  exact all_eq_true.mp hall _ hcode

/-- The small letters of ASCII. -/
def smallLetters : List Char := (range' 97 26).map Char.ofNat

/-- A character that has another capital is a small letter. -/
theorem mem_smallLetters (h : c.toUpper ≠ c) : c ∈ smallLetters := by
  unfold Char.toUpper at h
  split at h
  · rename_i hsmall
    have hlow : 97 ≤ c.toNat := UInt32.le_iff_toNat_le.mp hsmall.1
    have hhigh : c.toNat ≤ 122 := UInt32.le_iff_toNat_le.mp hsmall.2
    have hcode : c.toNat ∈ range' 97 26 := by
      refine mem_range'.mpr ⟨c.toNat - 97, ?_, ?_⟩ <;> omega
    exact mem_map.mpr ⟨c.toNat, hcode, Char.ofNat_toNat c⟩
  · exact absurd rfl h

/-- What the capital of each small letter shares with it, the capital of every character does. -/
theorem toUpper_congr (hall : (smallLetters.all fun c => p c.toUpper == p c) = true) (c : Char) :
    p c.toUpper = p c := by
  by_cases hc : c.toUpper = c
  · rw [hc]
  · exact eq_of_beq (all_eq_true.mp hall c (mem_smallLetters hc))

theorem isBlank_toUpper (c : Char) : isBlank c.toUpper = isBlank c := toUpper_congr (by decide) c

theorem toUpper_ne_space (hc : isBlank c = false) : c.toUpper ≠ ' ' := by
  intro h
  rw [← isBlank_toUpper, h] at hc
  cases hc

/-! ### Outlines -/

/-- The outline of a text: its ASCII letters as capitals, and one space for each run of blanks.  If
the text stands behind a blank, the blanks at its start belong to a run that has its space. -/
def outline (blank : Bool) : List Char → List Char
  | [] => []
  | c :: cs =>
    if isBlank c then
      if blank then outline true cs else ' ' :: outline true cs
    else c.toUpper :: outline false cs

/-- Whether a text ends with a blank, where `blank` says so of what stands before it. -/
def endsBlank (blank : Bool) (text : List Char) : Bool := text.foldl (fun _ c => isBlank c) blank

variable {blank : Bool} {cs text text' : List Char}

@[simp] theorem outline_nil : outline blank [] = [] := rfl

theorem outline_cons_of_blank (hc : isBlank c = true) :
    outline blank (c :: cs) = (if blank then [] else [' ']) ++ outline true cs := by
  cases blank <;> simp [outline, hc]

theorem outline_cons_of_not_blank (hc : isBlank c = false) :
    outline blank (c :: cs) = c.toUpper :: outline false cs := by
  simp [outline, hc]

theorem outline_append (blank : Bool) (text text' : List Char) :
    outline blank (text ++ text') = outline blank text ++ outline (endsBlank blank text) text' := by
  induction text generalizing blank with
  | nil => rfl
  | cons c cs ih =>
    have hends : endsBlank blank (c :: cs) = endsBlank (isBlank c) cs := rfl
    rw [hends, cons_append]
    cases hc : isBlank c with
    | false => rw [outline_cons_of_not_blank hc, outline_cons_of_not_blank hc, ih, cons_append]
    | true => rw [outline_cons_of_blank hc, outline_cons_of_blank hc, ih, append_assoc]

/-- A run of blanks leaves its one space. -/
theorem outline_blanks (hgap : ∀ c ∈ gap, isBlank c = true) :
    outline blank gap = if blank = true ∨ gap = [] then [] else [' '] := by
  induction gap generalizing blank with
  | nil => simp
  | cons c gap ih =>
    obtain ⟨hc, hgap⟩ := forall_mem_cons.mp hgap
    rw [outline_cons_of_blank hc, ih hgap]
    cases blank <;> simp

theorem endsBlank_blanks (hgap : ∀ c ∈ gap, isBlank c = true) :
    endsBlank blank gap = (blank || !gap.isEmpty) := by
  induction gap generalizing blank with
  | nil => simp [endsBlank]
  | cons c gap ih =>
    obtain ⟨hc, hgap⟩ := forall_mem_cons.mp hgap
    have hends : endsBlank blank (c :: gap) = endsBlank (isBlank c) gap := rfl
    rw [hends, ih hgap, hc]
    simp

/-- What does not start with a blank has the same outline wherever it stands. -/
theorem outline_of_head (h : text.head?.any isBlank = false) :
    outline blank text = outline false text := by
  cases text with
  | nil => rfl
  | cons c cs => rw [outline_cons_of_not_blank h, outline_cons_of_not_blank h]

/-- Blanks behind a blank do not show. -/
theorem outline_true_append (hgap : ∀ c ∈ gap, isBlank c = true) :
    outline true (gap ++ text) = outline true text := by
  rw [outline_append, outline_blanks hgap, endsBlank_blanks hgap, if_pos (.inl rfl)]
  rfl

theorem head_drop_blanks (cs : List Char) :
    (cs.drop (cs.takeWhile isBlank).length).head?.any isBlank = false := by
  induction cs with
  | nil => rfl
  | cons c cs ih =>
    cases hc : isBlank c with
    | true => simpa [hc] using ih
    | false => simp [hc]

theorem isBlank_of_mem_takeWhile (cs : List Char) : ∀ c ∈ cs.takeWhile isBlank, isBlank c = true :=
  all_eq_true.mp all_takeWhile

/-- A text is the blanks at its start and what stands behind them. -/
theorem takeWhile_append_drop (cs : List Char) :
    cs.takeWhile isBlank ++ cs.drop (cs.takeWhile isBlank).length = cs :=
  prefix_iff_eq_append.mp (List.takeWhile_prefix _)

theorem outline_drop_blanks (cs : List Char) :
    outline false (cs.drop (cs.takeWhile isBlank).length) = outline true cs := by
  have hhead : outline true (cs.drop (cs.takeWhile isBlank).length) =
    outline false (cs.drop (cs.takeWhile isBlank).length) := outline_of_head (head_drop_blanks cs)
  rw [← hhead]
  conv_rhs => rw [← takeWhile_append_drop cs, outline_true_append (isBlank_of_mem_takeWhile cs)]

/-- The outline shows whether the text ends with a blank. -/
theorem endsBlank_eq (blank : Bool) (text : List Char) : endsBlank blank text =
    ((outline blank text).getLast?.map (· == ' ')).getD blank := by
  induction text generalizing blank with
  | nil => rfl
  | cons c cs ih =>
    have hends : endsBlank blank (c :: cs) = endsBlank (isBlank c) cs := rfl
    rw [hends, ih]
    cases hc : isBlank c with
    | false =>
      rw [outline_cons_of_not_blank hc, getLast?_cons]
      cases (outline false cs).getLast? <;> simp [toUpper_ne_space hc]
    | true =>
      rw [outline_cons_of_blank hc]
      cases blank with
      | true => rfl
      | false =>
        rw [if_neg Bool.false_ne_true, singleton_append, getLast?_cons]
        cases (outline true cs).getLast? <;> rfl

/-- Without blanks the outline only has the letters as capitals. -/
theorem outline_eq_map (h : ∀ c ∈ text, isBlank c = false) :
    outline blank text = text.map Char.toUpper := by
  induction text generalizing blank with
  | nil => rfl
  | cons c cs ih =>
    obtain ⟨hc, hcs⟩ := forall_mem_cons.mp h
    rw [outline_cons_of_not_blank hc, ih hcs, map_cons]

/-- A blank shows in the outline. -/
theorem not_blank_of_outline (h : ' ' ∉ outline false text) : ∀ c ∈ text, isBlank c = false := by
  induction text with
  | nil => nofun
  | cons c cs ih =>
    cases hc : isBlank c with
    | true => simp [outline_cons_of_blank hc] at h
    | false =>
      rw [outline_cons_of_not_blank hc] at h
      exact forall_mem_cons.mpr ⟨hc, ih fun hmem => h (mem_cons_of_mem _ hmem)⟩

/-- The first character of the outline. -/
theorem head?_outline (text : List Char) : (outline false text).head? =
    text.head?.map fun c => if isBlank c then ' ' else c.toUpper := by
  cases text with
  | nil => rfl
  | cons c cs => cases hc : isBlank c <;> simp [outline, hc]

/-- A character class that does not tell capitals from small letters and ends at blanks, semicolons
and the signs of placeholders. -/
structure Stops (p : Char → Bool) : Prop where
  toUpper : ∀ c : Char, p c.toUpper = p c
  blank : ∀ c : Char, isBlank c = true → p c = false
  mark : ∀ c ∈ [';', '?', '%'], p c = false

theorem Stops.of_all (hletters : (smallLetters.all fun c => p c.toUpper == p c) = true)
    (hblanks : (blankCodes.all fun n => !p (Char.ofNat n)) = true)
    (hmarks : ([';', '?', '%'].all fun c => !p c) = true) : Stops p where
  toUpper := toUpper_congr hletters
  blank c hc := by simpa using of_isBlank (p := fun c => !p c) hblanks hc
  mark c hc := by simpa using all_eq_true.mp hmarks c hc

theorem Stops.not_blank (hp : Stops p) (hc : p c = true) : isBlank c = false := by
  rw [Bool.eq_false_iff]
  intro hblank
  rw [hp.blank c hblank] at hc
  cases hc

/-- No class of characters that stops there tells the starts of the texts apart. -/
def EndsAlike (text text' : List Char) : Prop := ∀ p, Stops p → text'.head?.any p = text.head?.any p

theorem Stops.any_head_outline (hp : Stops p) (text : List Char) :
    (outline false text).head?.any p = text.head?.any p := by
  rw [head?_outline]
  cases text with
  | nil => rfl
  | cons c cs =>
    cases hc : isBlank c with
    | true => simp [hc, hp.blank c hc, hp.blank ' ' rfl]
    | false => simp [hc, hp.toUpper]

/-- An outline that takes nothing from the text before it, which ends with a blank or not: it starts
with a space or a semicolon, if there is no blank before it, and no word comes next. -/
structure Closes (blank : Bool) (tail : List Char) : Prop where
  head : blank = false → ∀ c ∈ tail.head?, c = ' ' ∨ c = ';'
  no_word : ∀ c ∈ (tail.dropWhile (· == ' ')).head?, c.isAlpha = false

/-- The second text has the outline of the first one, and possibly more behind it that takes nothing
from it. -/
def Alike (text text' : List Char) : Prop := ∀ blank, ∃ tail, Closes (endsBlank blank text) tail ∧
    outline blank text' = outline blank text ++ tail

theorem eq_nil_of_outline (h : outline false text = []) : text = [] := by
  cases text with
  | nil => rfl
  | cons c cs => cases hc : isBlank c <;> simp [outline, hc] at h

/-- Nothing goes on into a placeholder, whatever its sign is. -/
theorem endsAlike_holeSign {h h' : Char} (hh : isHoleSign h = true) (hh' : isHoleSign h' = true)
    (rest rest' : List Char) : EndsAlike (h :: rest) (h' :: rest') := by
  intro p hp
  have hsign {c : Char} (hc : isHoleSign c = true) : p c = false := by
    rcases holeSign_cases hc with rfl | rfl <;> exact hp.mark _ (by decide)
  show p h' = p h
  rw [hsign hh, hsign hh']

theorem Alike.endsAlike (h : Alike text text') : EndsAlike text text' := by
  intro p hp
  obtain ⟨tail, htail, houtline⟩ := h false
  rw [← hp.any_head_outline, ← hp.any_head_outline text, houtline]
  cases houtline' : outline false text with
  | cons c cs => rfl
  | nil =>
    obtain rfl := eq_nil_of_outline houtline'
    cases tail with
    | nil => rfl
    | cons c tail =>
      rcases htail.head rfl c rfl with rfl | rfl
      · exact hp.blank ' ' rfl
      · exact hp.mark ';' mem_cons_self

/-- Texts with the same outline have it wherever they stand, if they do not start with a blank, and
end alike. -/
theorem outline_congr {piece piece' : List Char} (hne : piece.head?.any isBlank = false)
    (h : outline false piece' = outline false piece) (blank : Bool) :
    outline blank piece' = outline blank piece ∧ endsBlank blank piece' = endsBlank blank piece := by
  have hblank (text : List Char) :
      text.head?.any isBlank = (outline false text).head?.any (· == ' ') := by
    rw [head?_outline]
    cases text with
    | nil => rfl
    | cons c cs =>
      cases hc : isBlank c with
      | true => simp [hc]
      | false => simp [hc, toUpper_ne_space hc]
  have hne' : piece'.head?.any isBlank = false := by rw [hblank, h, ← hblank, hne]
  have houtline : outline blank piece' = outline blank piece := by
    rw [outline_of_head hne', h, ← outline_of_head hne]
  exact ⟨houtline, by rw [endsBlank_eq, endsBlank_eq, houtline]⟩

theorem endsBlank_append (blank : Bool) (text text' : List Char) :
    endsBlank blank (text ++ text') = endsBlank (endsBlank blank text) text' := foldl_append

theorem Alike.append {piece piece' : List Char} (hne : piece.head?.any isBlank = false)
    (hpiece : outline false piece' = outline false piece) (h : Alike text text') :
    Alike (piece ++ text) (piece' ++ text') := by
  intro blank
  obtain ⟨houtline, hends⟩ := outline_congr hne hpiece blank
  obtain ⟨tail, htail, htext⟩ := h (endsBlank blank piece)
  refine ⟨tail, endsBlank_append blank piece text ▸ htail, ?_⟩
  rw [outline_append, outline_append, houtline, hends, htext, append_assoc]

theorem Alike.append_blanks {gap' : List Char} (hgap : ∀ c ∈ gap, isBlank c = true)
    (hgap' : ∀ c ∈ gap', isBlank c = true) (hnil : gap' = [] ↔ gap = []) (h : Alike text text') :
    Alike (gap ++ text) (gap' ++ text') := by
  intro blank
  have hends : endsBlank blank gap' = endsBlank blank gap := by
    rw [endsBlank_blanks hgap, endsBlank_blanks hgap', Bool.eq_iff_iff]
    simp [hnil]
  obtain ⟨tail, htail, htext⟩ := h (endsBlank blank gap)
  refine ⟨tail, endsBlank_append blank gap text ▸ htail, ?_⟩
  simp only [outline_append, outline_blanks hgap, outline_blanks hgap', hnil, hends, htext,
    append_assoc]

end Text

open Text

/-! ### Compound keywords -/

/-- The pattern of a compound keyword: its words are made of letters and divided by spaces, and it
ends with a word. -/
structure Worded (ws : List Char) : Prop where
  letters : ∀ w ∈ ws, w = ' ' ∨ w.isAlpha = true
  last : ∀ w ∈ ws.getLast?, w ≠ ' '

/-- A text that does not end with a space has a first character that is none. -/
theorem exists_word {text : List Char} {w : Char} (hlast : text.getLast? = some w) (hw : w ≠ ' ') :
    ∃ v word, text.dropWhile (· == ' ') = v :: word ∧ v ∈ text ∧ v ≠ ' ' := by
  cases hword : text.dropWhile (· == ' ') with
  | nil =>
    have hspace := dropWhile_eq_nil_iff.mp hword w (mem_of_getLast? hlast)
    exact absurd (eq_of_beq hspace) hw
  | cons v word =>
    refine ⟨v, word, rfl, (dropWhile_suffix (· == ' ')).subset ?_, ?_⟩
    · rw [hword]
      exact mem_cons_self
    · simpa [hword] using head?_dropWhile_not (· == ' ') text

theorem not_isBlank_of_isAlpha (h : c.isAlpha = true) : isBlank c = false := by
  rw [Bool.eq_false_iff]
  intro hblank
  have hnot := of_isBlank (p := fun c => !c.isAlpha) (by decide) hblank
  rw [h] at hnot
  cases hnot

theorem Worded.spaces {ws : List Char} (h : Worded ws) : ∀ w ∈ ws, isBlank w = true → w = ' ' := by
  intro w hw hblank
  refine (h.letters w hw).resolve_right fun halpha => ?_
  rw [not_isBlank_of_isAlpha halpha] at hblank
  cases hblank

theorem Worded.tail {w : Char} {ws : List Char} (h : Worded (w :: ws)) : Worded ws where
  letters v hv := h.letters v (mem_cons_of_mem _ hv)
  last v hv := h.last v (by rw [getLast?_cons, Option.mem_def.mp hv]; rfl)

set_option maxRecDepth 4000 in
theorem worded_compounds : ∀ k ∈ Keyword.compounds, Worded (Text.uppercase k.text.toList) := by
  have hall : (Keyword.compounds.all fun k =>
      ((Text.uppercase k.text.toList).all fun w => w == ' ' || w.isAlpha) &&
      (Text.uppercase k.text.toList).getLast?.all fun w => w != ' ') = true := by decide
  intro k hk
  have hk := all_eq_true.mp hall k hk
  simp only [Bool.and_eq_true, all_eq_true, Bool.or_eq_true, beq_iff_eq] at hk
  refine ⟨hk.1, fun w hw => ?_⟩
  have hlast := hk.2
  rw [Option.mem_def.mp hw] at hlast
  simpa using hlast

theorem isDelimiter_toUpper (c : Char) : isDelimiter c.toUpper = isDelimiter c :=
  toUpper_congr (by decide) c

/-- Whether a word may end before a text shows in its outline. -/
theorem all_head_outline (text : List Char) :
    (outline false text).head?.all isDelimiter = text.head?.all isDelimiter := by
  rw [head?_outline]
  cases text with
  | nil => rfl
  | cons c cs =>
    cases hc : isBlank c with
    | true =>
      have hdelimiter : isDelimiter c = true := by simp [isDelimiter, hc]
      simp only [head?_cons, Option.map_some, hc, if_true, Option.all_some, hdelimiter]
      rfl
    | false => simp [hc, isDelimiter_toUpper]

section

variable {ws text text' piece rest : List Char}

/-- A pattern is found exactly where the outline of the text has it, and a word may end then. -/
theorem matchCapitals_isSome_iff (hws : ∀ w ∈ ws, isBlank w = true → w = ' ') :
    (matchCapitals ws text).isSome = true ↔
      ∃ rest, outline false text = ws ++ rest ∧ rest.head?.all isDelimiter = true := by
  induction ws generalizing text with
  | nil =>
    have hnil : (matchCapitals [] text).isSome = text.head?.all isDelimiter := by
      cases text with
      | nil => rfl
      | cons c cs =>
        rw [matchCapitals.eq_def]
        cases hc : isDelimiter c <;> simp [hc]
    rw [hnil, ← all_head_outline]
    simp
  | cons w ws ih =>
    obtain ⟨hw, hws⟩ := forall_mem_cons.mp hws
    rw [matchCapitals.eq_def]
    simp only
    cases text with
    | nil => split <;> simp
    | cons c cs =>
      cases hc : isBlank c with
      | true =>
        rw [outline_cons_of_blank hc]
        by_cases hspace : w = ' '
        · have hrest := @ih (cs.drop (cs.takeWhile isBlank).length) hws
          rw [outline_drop_blanks] at hrest
          simp [hspace, hc, hrest]
        · have hne : c.toUpper ≠ w := by
            rintro rfl
            exact hspace (hw (by rw [isBlank_toUpper, hc]))
          simp [hspace, hne, Ne.symm hspace]
      | false =>
        rw [outline_cons_of_not_blank hc]
        by_cases hspace : w = ' '
        · simp [hspace, hc, toUpper_ne_space hc]
        · by_cases hupper : c.toUpper = w
          · simp [hspace, hupper, ih hws]
          · simp [hspace, hupper]

/-- A pattern is found in texts that are alike, or in neither of them. -/
theorem matchCapitals_alike (hws : Worded ws) (h : Alike text text') :
    (matchCapitals ws text').isSome = (matchCapitals ws text).isSome := by
  obtain ⟨tail, htail, houtline⟩ := h false
  rw [Bool.eq_iff_iff, matchCapitals_isSome_iff hws.spaces, matchCapitals_isSome_iff hws.spaces,
    houtline]
  constructor
  · rintro ⟨rest', heq, hend⟩
    rcases append_eq_append_iff.mp heq with ⟨beyond, hbeyond, htail'⟩ | ⟨rest, hrest, rfl⟩
    · -- the pattern cannot go on behind the text, where no word comes next
      have hnil : beyond = [] := by
        cases hlast : beyond.getLast? with
        | none => exact getLast?_eq_none_iff.mp hlast
        | some w =>
          have hw := hws.last w (by rw [hbeyond, getLast?_append, hlast]; rfl)
          obtain ⟨v, word, hword, hv, hspace⟩ := exists_word hlast hw
          have halpha := htail.no_word v (by rw [htail', dropWhile_append, hword]; rfl)
          have hletter := hws.letters v (by rw [hbeyond]; exact mem_append_right _ hv)
          rw [hletter.resolve_left hspace] at halpha
          cases halpha
      refine ⟨[], ?_, rfl⟩
      rw [hbeyond, hnil, append_nil, append_nil]
    · refine ⟨rest, hrest, ?_⟩
      cases rest with
      | nil => rfl
      | cons c rest => exact hend
  · rintro ⟨rest, heq, hend⟩
    refine ⟨rest ++ tail, by rw [heq, append_assoc], ?_⟩
    cases rest with
    | cons c rest => exact hend
    | nil =>
      -- the text ends with the last word of the pattern
      have hends : endsBlank false text = false := by
        rw [endsBlank_eq, heq, append_nil]
        cases hlast : ws.getLast? with
        | none => rfl
        | some w => simpa using hws.last w hlast
      cases tail with
      | nil => rfl
      | cons c tail => rcases htail.head hends c rfl with rfl | rfl <;> rfl

/-- The characters that a pattern takes have it for their outline. -/
theorem matchCapitals_eq_some (hws : ∀ w ∈ ws, isBlank w = true → w = ' ') {n : Nat}
    (h : matchCapitals ws text = some n) :
    ∃ piece rest, text = piece ++ rest ∧ piece.length = n ∧ outline false piece = ws ∧
      rest.head?.all isDelimiter = true := by
  induction ws generalizing text n with
  | nil =>
    rw [matchCapitals.eq_def] at h
    cases text with
    | nil =>
      cases h
      exact ⟨[], [], rfl, rfl, rfl, rfl⟩
    | cons c cs =>
      simp only at h
      split at h
      · rename_i hc
        cases h
        exact ⟨[], c :: cs, rfl, rfl, rfl, hc⟩
      · cases h
  | cons w ws ih =>
    obtain ⟨hw, hws⟩ := forall_mem_cons.mp hws
    rw [matchCapitals.eq_def] at h
    simp only at h
    cases text with
    | nil => split at h <;> cases h
    | cons c cs =>
      simp only at h
      split at h
      · rename_i hspace
        split at h
        · rename_i hc
          obtain ⟨m, hm, rfl⟩ := Option.map_eq_some_iff.mp h
          obtain ⟨piece, rest, hrest, rfl, houtline, hend⟩ := ih hws hm
          have hhead : piece.head?.any isBlank = false := by
            have hhead := head_drop_blanks cs
            rw [hrest] at hhead
            cases piece with
            | nil => rfl
            | cons d piece => exact hhead
          refine ⟨c :: (cs.takeWhile isBlank ++ piece), rest, ?_, ?_, ?_, hend⟩
          · rw [cons_append, append_assoc, ← hrest, takeWhile_append_drop]
          · simp only [length_cons, length_append]
            omega
          · rw [outline_cons_of_blank hc, outline_true_append (isBlank_of_mem_takeWhile cs),
              outline_of_head hhead, houtline, hspace]
            rfl
        · cases h
      · rename_i hspace
        split at h
        · rename_i hupper
          obtain ⟨m, hm, rfl⟩ := Option.map_eq_some_iff.mp h
          obtain ⟨piece, rest, rfl, rfl, houtline, hend⟩ := ih hws hm
          have hc : isBlank c = false := by
            rw [← isBlank_toUpper, hupper]
            exact Bool.eq_false_iff.mpr fun hblank => hspace (hw hblank)
          refine ⟨c :: piece, rest, rfl, rfl, ?_, hend⟩
          rw [outline_cons_of_not_blank hc, hupper, houtline]
        · cases h

/-- A pattern takes any text that has it for its outline, where a word may end behind it. -/
theorem matchCapitals_append (hws : Worded ws) (hpiece : outline false piece = ws)
    (hend : rest.head?.all isDelimiter = true) :
    matchCapitals ws (piece ++ rest) = some piece.length := by
  induction ws generalizing piece with
  | nil =>
    have hnil : piece = [] := by
      cases piece with
      | nil => rfl
      | cons c cs => cases hc : isBlank c <;> simp [outline, hc] at hpiece
    subst hnil
    rw [matchCapitals.eq_def]
    cases rest with
    | nil => rfl
    | cons c cs => exact if_pos hend
  | cons w ws ih =>
    cases piece with
    | nil => cases hpiece
    | cons c piece =>
      rw [matchCapitals.eq_def]
      simp only [cons_append]
      cases hc : isBlank c with
      | true =>
        rw [outline_cons_of_blank hc] at hpiece
        obtain ⟨hw, htail⟩ := cons.inj hpiece
        subst hw
        change outline true piece = ws at htail
        rw [← outline_drop_blanks] at htail
        -- the pattern goes on with a word, so that the run of blanks ends within the piece
        have hlong : (piece.takeWhile isBlank).length < piece.length := by
          refine Nat.lt_of_le_of_ne (List.takeWhile_prefix _).length_le fun hall => ?_
          rw [hall, drop_length] at htail
          exact hws.last ' ' (by rw [← htail]; rfl) rfl
        have htake : (piece ++ rest).takeWhile isBlank = piece.takeWhile isBlank := by
          rw [takeWhile_append, if_neg hlong.ne]
        rw [if_pos rfl, if_pos rfl, htake, drop_append_of_le_length hlong.le, ih hws.tail htail]
        simp
        omega
      | false =>
        rw [outline_cons_of_not_blank hc] at hpiece
        obtain ⟨hw, htail⟩ := cons.inj hpiece
        subst hw
        rw [if_neg (toUpper_ne_space hc), if_pos rfl, ih hws.tail htail]
        rfl

theorem Text.Alike.all_head (h : Alike text text') (hend : text.head?.all isDelimiter = true) :
    text'.head?.all isDelimiter = true := by
  obtain ⟨tail, htail, houtline⟩ := h false
  rw [← all_head_outline] at hend ⊢
  rw [houtline]
  cases houtline' : outline false text with
  | cons c cs =>
    rw [houtline'] at hend
    exact hend
  | nil =>
    obtain rfl := eq_nil_of_outline houtline'
    cases tail with
    | nil => rfl
    | cons c tail => rcases htail.head rfl c rfl with rfl | rfl <;> rfl

/-- The compound keyword at the start of a text is the first one that is found there. -/
theorem map_fst_compound? (text : List Char) : (compound? text).map Prod.fst =
    Keyword.compounds.find? fun k => (matchWord k.text.toList text).isSome := by
  unfold compound?
  induction Keyword.compounds with
  | nil => rfl
  | cons k ks ih =>
    rw [findSome?_cons, find?_cons]
    cases matchWord k.text.toList text with
    | none => exact ih
    | some n => rfl

/-- Texts that are alike start with the same compound keyword, or with none. -/
theorem compound?_alike (h : Alike text text') :
    (compound? text').map Prod.fst = (compound? text).map Prod.fst := by
  rw [map_fst_compound?, map_fst_compound?]
  refine find?_congr fun k hk => ?_
  rw [matchWord, matchWord, matchCapitals_alike (worded_compounds k hk) h]

/-- A compound keyword takes characters that have it for their outline, up to where a word may end. -/
theorem compound?_eq_some {k : Keyword} {n : Nat} (h : compound? text = some (k, n)) :
    k ∈ Keyword.compounds ∧ matchWord k.text.toList text = some n := by
  obtain ⟨k', hk', hmatch⟩ := exists_of_findSome?_eq_some h
  obtain ⟨m, hm, heq⟩ := Option.map_eq_some_iff.mp hmatch
  cases heq
  exact ⟨hk', hm⟩

set_option maxRecDepth 8000 in
/-- No compound keyword starts with another one. -/
theorem compound_prefix_eq {k k' : Keyword} (hk : k ∈ Keyword.compounds)
    (hk' : k' ∈ Keyword.compounds)
    (h : Text.uppercase k.text.toList <+: Text.uppercase k'.text.toList) : k = k' := by
  have hall : (Keyword.compounds.all fun k => Keyword.compounds.all fun k' =>
    !(Text.uppercase k.text.toList).isPrefixOf (Text.uppercase k'.text.toList) || k == k') = true := by
    decide
  have := all_eq_true.mp (all_eq_true.mp hall k hk) k' hk'
  rw [List.isPrefixOf_iff_prefix.mpr h] at this
  exact eq_of_beq this

/-- A text starts with at most one compound keyword. -/
theorem compound_unique {k k' : Keyword} (hk : k ∈ Keyword.compounds) (hk' : k' ∈ Keyword.compounds)
    (h : (matchWord k.text.toList text).isSome = true)
    (h' : (matchWord k'.text.toList text).isSome = true) : k = k' := by
  have hstarts {k : Keyword} (hk : k ∈ Keyword.compounds)
      (h : (matchWord k.text.toList text).isSome = true) :
      Text.uppercase k.text.toList <+: outline false text := by
    obtain ⟨tail, houtline, -⟩ := (matchCapitals_isSome_iff (worded_compounds k hk).spaces).mp h
    exact ⟨tail, houtline.symm⟩
  rcases prefix_or_prefix_of_prefix (hstarts hk h) (hstarts hk' h') with hfirst | hfirst
  · exact compound_prefix_eq hk hk' hfirst
  · exact (compound_prefix_eq hk' hk hfirst).symm

/-- A compound keyword is found in any spelling, where a word may end behind it. -/
theorem compound?_append {k : Keyword} (hk : k ∈ Keyword.compounds)
    (hpiece : outline false piece = Text.uppercase k.text.toList)
    (hend : rest.head?.all isDelimiter = true) :
    compound? (piece ++ rest) = some (k, piece.length) := by
  have hmatch : matchWord k.text.toList (piece ++ rest) = some piece.length :=
    matchCapitals_append (worded_compounds k hk) hpiece hend
  have hsome : (compound? (piece ++ rest)).isSome = true :=
    findSome?_isSome_iff.mpr ⟨k, hk, by rw [hmatch]; rfl⟩
  obtain ⟨⟨k', n⟩, hfound⟩ := Option.isSome_iff_exists.mp hsome
  obtain ⟨hk', hmatch'⟩ := compound?_eq_some hfound
  obtain rfl : k' = k :=
    compound_unique hk' hk (Option.isSome_of_eq_some hmatch') (Option.isSome_of_eq_some hmatch)
  rw [hfound, Option.some.inj (hmatch.symm.trans hmatch')]

end

end DocSql
