import DocSql.Proofs.SettledTokens

/-! # The levels of a list of tokens

The levels of a list of tokens are the list itself and every list of tokens that is held by a token of
a level.  What a level is written out as (`flatAll`) holds nothing but tokens of its levels, labels,
operators and keywords (`occurs_flatAll`).  The words of a compound keyword stand side by side in it
only where they do so on a level (`level_of_run`): a folded token starts and ends with none of them.
-/
namespace DocSql
open List

namespace Token

variable {tokens part : List Token} {t : Token}

/-- The tokens themselves, and each list of tokens inside them. -/
inductive Level (tokens : List Token) : List Token → Prop
  | self : Level tokens tokens
  | inner {level within : List Token} {t : Token} (outer : Level tokens level) (mem : t ∈ level)
    (part : within ∈ parts t) : Level tokens within

theorem Level.trans {level within : List Token} (h : Level tokens level) (h' : Level level within) :
    Level tokens within := by
  induction h' with
  | self => exact h
  | inner _ mem part ih => exact ih.inner mem part

theorem Level.of_part {level : List Token} (ht : t ∈ tokens) (hpart : part ∈ parts t)
    (h : Level part level) : Level tokens level :=
  (Level.self.inner ht hpart).trans h

/-! ### What stands on a level that is written out -/

/-- The token stands on a level of the tokens, or is written between the tokens of one. -/
inductive Occurs (tokens : List Token) : Token → Prop
  | token {level : List Token} {u : Token} (within : Level tokens level) (mem : u ∈ level) :
    Occurs tokens u
  | keyword (k : Keyword) : Occurs tokens (.keyword k)
  | operator (op : String) : Occurs tokens (.operator op)
  | label {level : List Token} {t : Token} {label : String} (within : Level tokens level)
    (mem : .aliased t label ∈ level) : Occurs tokens (.name none label)

theorem Occurs.of_part {u : Token} (h : Occurs part u) (ht : t ∈ tokens) (hpart : part ∈ parts t) :
    Occurs tokens u := by
  cases h with
  | token hlevel hmem => exact .token (hlevel.of_part ht hpart) hmem
  | keyword k => exact .keyword k
  | operator op => exact .operator op
  | label hlevel hmem => exact .label (hlevel.of_part ht hpart) hmem

mutual

theorem occurs_flat {tokens : List Token} {u : Token} : ∀ t ∈ tokens, u ∈ flat t → Occurs tokens u
  | .comparison left op right, ht, hu => by
    rcases mem_append.mp hu with hu | hu
    · exact (occurs_flat left mem_cons_self hu).of_part ht mem_cons_self
    · rcases mem_cons.mp hu with rfl | hu
      · exact .operator _
      · exact (occurs_flat right (mem_singleton_self right) hu).of_part ht (by simp [parts])
  | .operation left op right, ht, hu => by
    rcases mem_append.mp hu with hu | hu
    · exact (occurs_flat left (mem_singleton_self left) hu).of_part ht mem_cons_self
    · rcases mem_cons.mp hu with rfl | hu
      · exact .operator _
      · exact (occurs_flat right (mem_singleton_self right) hu).of_part ht (by simp [parts])
  | .caseOf operand arms, ht, hu => by
    simp only [flat, mem_cons, mem_append, not_mem_nil, or_false] at hu
    rcases hu with rfl | (hu | hu) | rfl
    · exact .keyword _
    · exact (occurs_flatAll operand (fun _ h => h) hu).of_part ht mem_cons_self
    · exact occurs_flatArms arms ht (fun part hpart => mem_cons_of_mem _ hpart) hu
    · exact .keyword _
  | .aliased t label, ht, hu => by
    simp only [flat, mem_append, mem_cons, not_mem_nil, or_false] at hu
    rcases hu with hu | rfl | rfl
    · exact (occurs_flat t (mem_singleton_self t) hu).of_part ht mem_cons_self
    · exact .keyword _
    · exact .label .self ht
  | .keyword _, ht, hu | .name .., ht, hu | .literal _, ht, hu | .placeholder _, ht, hu
  | .wildcard, ht, hu | .punctuation _, ht, hu | .operator _, ht, hu | .paren _, ht, hu
  | .call .., ht, hu => .token .self (mem_singleton.mp hu ▸ ht)

theorem occurs_flatAll {tokens : List Token} {u : Token} : ∀ level, (∀ t ∈ level, t ∈ tokens) →
    u ∈ flatAll level → Occurs tokens u
  | [], _, hu => nomatch hu
  | t :: rest, hmem, hu => by
    obtain ⟨ht, hrest⟩ := forall_mem_cons.mp hmem
    rcases mem_append.mp hu with hu | hu
    · exact occurs_flat t ht hu
    · exact occurs_flatAll rest hrest hu

theorem occurs_flatArms {tokens : List Token} {t u : Token} : ∀ arms, t ∈ tokens →
    (∀ part ∈ armParts arms, part ∈ parts t) → u ∈ flatArms arms → Occurs tokens u
  | .done, _, _, hu => nomatch hu
  | .otherwise body, ht, hparts, hu => by
    rcases mem_cons.mp hu with rfl | hu
    · exact .keyword _
    · exact (occurs_flatAll body (fun _ h => h) hu).of_part ht (hparts body mem_cons_self)
  | .arm condition result rest, ht, hparts, hu => by
    simp only [flatArms, mem_cons, mem_append] at hu
    rcases hu with rfl | hu | rfl | hu | hu
    · exact .keyword _
    · exact (occurs_flatAll condition (fun _ h => h) hu).of_part ht (hparts condition (by simp [armParts]))
    · exact .keyword _
    · exact (occurs_flatAll result (fun _ h => h) hu).of_part ht (hparts result (by simp [armParts]))
    · exact occurs_flatArms rest ht (fun part hpart => hparts part (by simp [armParts, hpart])) hu

end

/-- What a token of a level that is written out holds is a level. -/
theorem level_of_mem_flatAll {u : Token} (hu : u ∈ flatAll tokens) (hpart : part ∈ parts u) :
    Level tokens part := by
  cases occurs_flatAll tokens (fun _ h => h) hu with
  | token hlevel hmem => exact hlevel.inner hmem hpart
  | keyword | operator | label => cases hpart

/-! ### Runs of keywords -/

/-- The words of compound keywords that are keywords of their own. -/
def joinWords : List Keyword := [.JOIN, .INNER, .LEFT, .RIGHT, .OUTER, .FULL, .CROSS]

/-- Whether the token is a word of a compound keyword. -/
def isJoinWord : Token → Bool
  | .keyword k => k ∈ joinWords
  | _ => false

theorem isJoinWord_of_isOperand (h : t.isOperand = true) : t.isJoinWord = false := by
  cases t <;> first | rfl | cases h

theorem isJoinWord_of_isAliasable (h : t.isAliasable = true) : t.isJoinWord = false := by
  cases t <;> first | rfl | cases h

theorem flat_of_isJoinWord (h : t.isJoinWord = true) : flat t = [t] := by
  cases t <;> first | rfl | cases h

theorem head?_flat_append (t : Token) (rest : List Token) :
    (flat t ++ rest).head? = (flat t).head? := by
  rw [head?_append]
  cases h : (flat t).head? with
  | none => exact absurd (head?_eq_none_iff.mp h) (flat_ne_nil t)
  | some u => rfl

theorem getLast?_append_cons_flat (t u : Token) (before : List Token) :
    (before ++ u :: flat t).getLast? = (flat t).getLast? := by
  rw [getLast?_append, getLast?_cons]
  cases h : (flat t).getLast? with
  | none => exact absurd (getLast?_eq_none_iff.mp h) (flat_ne_nil t)
  | some v => rfl

/-- A token that is no word of a compound keyword is written out between tokens that are none. -/
theorem Formed.ends_flat (h : Formed t) (ht : t.isJoinWord = false) :
    (flat t).head?.any isJoinWord = false ∧ (flat t).getLast?.any isJoinWord = false := by
  induction h with
  | alone hflat =>
    rw [hflat]
    exact ⟨ht, ht⟩
  | @folded t shaped inner ih =>
    cases t with
    | comparison left op right | operation left op right =>
      obtain ⟨hleft, hright⟩ := Bool.and_eq_true_iff.mp shaped
      rw [flat, head?_flat_append, getLast?_append_cons_flat]
      exact ⟨(ih [left] (by simp [parts]) left (by simp) (isJoinWord_of_isOperand hleft)).1,
        (ih [right] (by simp [parts]) right (by simp) (isJoinWord_of_isOperand hright)).2⟩
    | caseOf operand arms =>
      rw [flat, ← cons_append, getLast?_concat]
      exact ⟨rfl, rfl⟩
    | aliased t label =>
      rw [flat, head?_flat_append, getLast?_append]
      exact ⟨(ih [t] (by simp [parts]) t (by simp) (isJoinWord_of_isAliasable shaped)).1, rfl⟩
    | _ => exact ⟨ht, ht⟩

section

variable {run : List Token} (hrun : ∀ r ∈ run, r.isJoinWord = true)
variable {xs : List Token}

theorem infix_of_infix_cons {run : List Token} (ht : t ∉ run) (h : run <:+: t :: xs) :
    run <:+: xs := by
  rcases infix_cons_iff.mp h with h | h
  · rcases prefix_cons_iff.mp h with rfl | ⟨more, rfl, -⟩
    · exact nil_infix
    · exact absurd mem_cons_self ht
  · exact h

/-- A run that does not hold a token stands on one side of it. -/
theorem infix_of_separated {run ys : List Token} (ht : t ∉ run) (h : run <:+: xs ++ t :: ys) :
    run <:+: xs ∨ run <:+: ys := by
  rcases infix_append_iff.mp h with h | h | ⟨a, b, rfl, ha, hb⟩
  · exact .inl h
  · exact .inr (infix_of_infix_cons ht h)
  · rcases prefix_cons_iff.mp hb with rfl | ⟨b, rfl, -⟩
    · exact .inl (by simpa using ha.isInfix)
    · exact absurd (mem_append_right _ mem_cons_self) ht

include hrun

theorem prefix_of_prefix_flatAll (hformed : ∀ t ∈ tokens, Formed t) (h : run <+: flatAll tokens) :
    run <+: tokens := by
  induction tokens generalizing run with
  | nil => exact h
  | cons t rest ih =>
    obtain ⟨ht, hrest⟩ := forall_mem_cons.mp hformed
    cases run with
    | nil => exact nil_prefix
    | cons r run =>
      obtain ⟨hr, hrun⟩ := forall_mem_cons.mp hrun
      cases hjoin : t.isJoinWord with
      | true =>
        rw [flatAll, flat_of_isJoinWord hjoin, singleton_append] at h
        obtain ⟨rfl, hmore⟩ := cons_prefix_cons.mp h
        exact cons_prefix_cons.mpr ⟨rfl, ih hrun hrest hmore⟩
      | false =>
        have hhead : (flat t).head? = some r := by
          obtain ⟨tail, htail⟩ := h
          rw [← head?_flat_append t (flatAll rest), ← flatAll, ← htail]
          rfl
        have hends := (ht.ends_flat hjoin).1
        rw [hhead, Option.any_some, hr] at hends
        cases hends

/-- A run of words of compound keywords stands on a level as it is, or within one of its tokens. -/
theorem infix_of_infix_flatAll (hformed : ∀ t ∈ tokens, Formed t) (h : run <:+: flatAll tokens) :
    run <:+: tokens ∨ ∃ t ∈ tokens, t.isJoinWord = false ∧ run <:+: flat t := by
  induction tokens with
  | nil => exact .inl h
  | cons t rest ih =>
    obtain ⟨ht, hrest⟩ := forall_mem_cons.mp hformed
    have hprefix {run : List Token} (hrun : ∀ r ∈ run, r.isJoinWord = true)
      (h : run <+: flatAll rest) : run <+: rest := prefix_of_prefix_flatAll hrun hrest h
    rcases infix_append_iff.mp h with h | h | ⟨a, b, rfl, ha, hb⟩
    · cases hjoin : t.isJoinWord with
      | true =>
        rw [flat_of_isJoinWord hjoin] at h
        exact .inl (h.trans (prefix_append [t] rest).isInfix)
      | false => exact .inr ⟨t, mem_cons_self, hjoin, h⟩
    · rcases ih hrest h with h | ⟨u, hu, h⟩
      · exact .inl (h.trans (suffix_cons t rest).isInfix)
      · exact .inr ⟨u, mem_cons_of_mem _ hu, h⟩
    · obtain ⟨hrunA, hrunB⟩ := forall_mem_append.mp hrun
      have hb := hprefix hrunB hb
      rcases eq_nil_or_concat a with rfl | ⟨a, r, rfl⟩
      · exact .inl (hb.isInfix.trans (suffix_cons t rest).isInfix)
      · -- the run goes on behind the token, which is then one of its words
        have hr : r.isJoinWord = true := hrunA r (by simp)
        have hlast : (flat t).getLast? = some r := by
          obtain ⟨before, hbefore⟩ := ha
          rw [← hbefore, concat_eq_append, ← append_assoc, getLast?_concat]
        cases hjoin : t.isJoinWord with
        | true =>
          rw [flat_of_isJoinWord hjoin] at ha
          have hsub : a.concat r = [t] := by
            rcases suffix_cons_iff.mp ha with h | h
            · exact h
            · simp at h
          rw [hsub]
          exact .inl (cons_prefix_cons.mpr ⟨rfl, hb⟩).isInfix
        | false =>
          have hends := (ht.ends_flat hjoin).2
          rw [hlast, Option.any_some, hr] at hends
          cases hends

theorem not_mem_run (ht : t.isJoinWord = false) : t ∉ run := by
  intro hmem
  rw [hrun t hmem] at ht
  cases ht

theorem infix_of_append_flatArms {arms : TokenArms} (h : run <:+: xs ++ flatArms arms) :
    run <:+: xs ∨ run <:+: flatArms arms := by
  cases arms with
  | done => exact .inl (by simpa [flatArms] using h)
  | otherwise body | arm condition result rest =>
    rcases infix_of_separated (not_mem_run hrun rfl) h with h | h
    · exact .inl h
    · exact .inr (h.trans (suffix_cons _ _).isInfix)

theorem part_of_infix_flatArms (hne : run ≠ []) {arms : TokenArms} (h : run <:+: flatArms arms) :
    ∃ part ∈ armParts arms, run <:+: flatAll part := by
  fun_induction armParts arms with
  | case1 => exact absurd (infix_nil.mp h) hne
  | case2 body => exact ⟨body, mem_cons_self, infix_of_infix_cons (not_mem_run hrun rfl) h⟩
  | case3 condition result rest ih =>
    have h := infix_of_infix_cons (not_mem_run hrun rfl) h
    rcases infix_of_separated (not_mem_run hrun rfl) h with h | h
    · exact ⟨condition, mem_cons_self, h⟩
    · rcases infix_of_append_flatArms hrun h with h | h
      · exact ⟨result, by simp, h⟩
      · obtain ⟨part, hpart, h⟩ := ih h
        exact ⟨part, by simp [hpart], h⟩

/-- A run of words of compound keywords that stands within a token stands within one of its parts. -/
theorem part_of_infix_flat (hne : run ≠ []) (ht : t.isJoinWord = false) (h : run <:+: flat t) :
    ∃ part ∈ parts t, run <:+: flatAll part := by
  have hnil {u : Token} (hu : u.isJoinWord = false) (h : run <:+: [u]) : False :=
    hne (infix_nil.mp (infix_of_infix_cons (not_mem_run hrun hu) h))
  cases t with
  | comparison left op right | operation left op right =>
    rcases infix_of_separated (not_mem_run hrun rfl) h with h | h
    · exact ⟨[left], by simp [parts], by simpa [flatAll] using h⟩
    · exact ⟨[right], by simp [parts], by simpa [flatAll] using h⟩
  | caseOf operand arms =>
    have h := infix_of_infix_cons (not_mem_run hrun rfl) h
    rcases infix_of_separated (not_mem_run hrun rfl) h with h | h
    · rcases infix_of_append_flatArms hrun h with h | h
      · exact ⟨operand, mem_cons_self, h⟩
      · obtain ⟨part, hpart, h⟩ := part_of_infix_flatArms hrun hne h
        exact ⟨part, mem_cons_of_mem _ hpart, h⟩
    · exact absurd (infix_nil.mp h) hne
  | aliased t label =>
    rcases infix_of_separated (not_mem_run hrun rfl) h with h | h
    · exact ⟨[t], by simp [parts], by simpa [flatAll] using h⟩
    · exact (hnil rfl h).elim
  | _ => exact (hnil ht h).elim

theorem Formed.level_of_run (hne : run ≠ []) (hformed : Formed t) (ht : t.isJoinWord = false)
    (h : run <:+: flat t) : ∃ part ∈ parts t, ∃ level, Level part level ∧ run <:+: level := by
  induction hformed with
  | @alone t hflat =>
    rw [hflat] at h
    exact absurd (infix_nil.mp (infix_of_infix_cons (not_mem_run hrun ht) h)) hne
  | @folded t shaped inner ih =>
    obtain ⟨part, hpart, h⟩ := part_of_infix_flat hrun hne ht h
    rcases infix_of_infix_flatAll hrun (inner part hpart) h with h | ⟨u, hu, hjoin, h⟩
    · exact ⟨part, hpart, part, .self, h⟩
    · obtain ⟨part', hpart', level, hlevel, h⟩ := ih part hpart u hu hjoin h
      exact ⟨part, hpart, level, hlevel.of_part hu hpart', h⟩

/-- Where words of compound keywords stand side by side in what a level is written out as, they do so
on a level. -/
theorem level_of_run (hne : run ≠ []) (hformed : ∀ t ∈ tokens, Formed t)
    (h : run <:+: flatAll tokens) : ∃ level, Level tokens level ∧ run <:+: level := by
  rcases infix_of_infix_flatAll hrun hformed h with h | ⟨t, ht, hjoin, h⟩
  · exact ⟨tokens, .self, h⟩
  · obtain ⟨part, hpart, level, hlevel, h⟩ := (hformed t ht).level_of_run hrun hne hjoin h
    exact ⟨level, hlevel.of_part ht hpart, h⟩

theorem arg_of_run {args : List (List Token)} (hne : run ≠ []) (h : run <:+: flatArgs args) :
    ∃ arg ∈ args, run <:+: flatAll arg := by
  fun_induction flatArgs args with
  | case1 => exact absurd (infix_nil.mp h) hne
  | case2 arg => exact ⟨arg, mem_cons_self, h⟩
  | case3 arg rest _ ih =>
    rcases infix_of_separated (not_mem_run hrun rfl) h with h | h
    · exact ⟨arg, mem_cons_self, h⟩
    · obtain ⟨arg', harg', h⟩ := ih h
      exact ⟨arg', mem_cons_of_mem _ harg', h⟩

end

end Token

end DocSql
