import DocSql.Proofs.TokenHoles

/-! # Folding a level

The fuel of `finish` only stands for the number of tokens: `finish_eq` says that a level is folded by
folding its CASE expressions, whose parts are finished in the same way, and then its operators and
aliases.  What stands at the end of a level and takes no part in any of this, such as semicolons, stays
there (`finish_append_semicolons`).
-/
namespace DocSql
open Compiled List

namespace Token

variable {tokens body : List Token}

/-! ### CASE expressions are shorter than the level they stand in -/

variable {t : Token} {k : Keyword}

theorem isKeyword_iff : t.isKeyword k = true ↔ t = .keyword k := by
  cases t <;> simp [isKeyword]

section

variable {n : Nat} {rest : List Token}

theorem splitCase_end : splitCase (n + 1) (.keyword .END :: rest) =
    (splitCase n rest).map fun parts => (.keyword .END :: parts.1, parts.2) := by
  rw [splitCase.eq_def]
  rfl

theorem splitCase_case : splitCase n (.keyword .CASE :: rest) =
    (splitCase (n + 1) rest).map fun parts => (.keyword .CASE :: parts.1, parts.2) := by
  rw [splitCase.eq_def]
  rfl

theorem splitCase_other (hend : t.isKeyword .END = false) (hcase : t.isKeyword .CASE = false) :
    splitCase n (t :: rest) = (splitCase n rest).map fun parts => (t :: parts.1, parts.2) := by
  rw [splitCase.eq_def]
  simp [hend, hcase]

end

/-- The tokens close the CASE expressions that are open before them, of which there are so many, and
all that they open themselves.  Unless `marks` allows it, no WHEN, THEN or ELSE stands outside of
them. -/
inductive Closes (marks : Bool) : Nat → List Token → Prop
  | nil : Closes marks 0 []
  | leave {n : Nat} {rest : List Token} (more : Closes marks n rest) :
    Closes marks (n + 1) (.keyword .END :: rest)
  | enter {n : Nat} {rest : List Token} (more : Closes marks (n + 1) rest) :
    Closes marks n (.keyword .CASE :: rest)
  | other {n : Nat} {t : Token} {rest : List Token} (not_end : t.isKeyword .END = false)
    (not_case : t.isKeyword .CASE = false) (mark : n = 0 → marks = false → caseMark? t = none)
    (more : Closes marks n rest) : Closes marks n (t :: rest)

namespace Closes

variable {marks : Bool} {n : Nat} {xs : List Token}

/-- A CASE expression around the tokens does not end among them. -/
theorem splitCase_append (h : Closes marks n xs) (outer : Nat) (rest : List Token) :
    splitCase (n + outer) (xs ++ rest) =
      (splitCase outer rest).map fun parts => (xs ++ parts.1, parts.2) := by
  induction h with
  | nil => simp
  | @leave n xs _ ih =>
    rw [cons_append, Nat.add_right_comm, splitCase_end, ih, Option.map_map]
    rfl
  | @enter n xs _ ih =>
    rw [cons_append, splitCase_case, Nat.add_right_comm, ih, Option.map_map]
    rfl
  | @other n t xs hend hcase _ _ ih =>
    rw [cons_append, splitCase_other hend hcase, ih, Option.map_map]
    rfl

theorem splitCase_eq (h : Closes marks n xs) (after : List Token) :
    splitCase n (xs ++ .keyword .END :: after) = some (xs, after) := by
  rw [← Nat.add_zero n, h.splitCase_append 0]
  simp [splitCase, isKeyword]

/-- What stands between CASE and its END is balanced. -/
theorem of_splitCase {after : List Token} (h : splitCase n xs = some (body, after)) :
    Closes true n body ∧ xs = body ++ .keyword .END :: after := by
  induction xs generalizing n body after with
  | nil => cases h
  | cons t rest ih =>
    have hmore {m : Nat}
        (h : (splitCase m rest).map (fun parts => (t :: parts.1, parts.2)) = some (body, after)) :
        ∃ body', body = t :: body' ∧ Closes true m body' ∧
          t :: rest = body ++ .keyword .END :: after := by
      obtain ⟨⟨body', after'⟩, hsplit, heq⟩ := Option.map_eq_some_iff.mp h
      cases heq
      obtain ⟨hbody, rfl⟩ := ih hsplit
      exact ⟨body', rfl, hbody, rfl⟩
    by_cases hend : t.isKeyword .END = true
    · obtain rfl := isKeyword_iff.mp hend
      cases n with
      | zero =>
        cases h
        exact ⟨.nil, rfl⟩
      | succ n =>
        rw [splitCase_end] at h
        obtain ⟨body', rfl, hbody, hrest⟩ := hmore h
        exact ⟨.leave hbody, hrest⟩
    · rw [Bool.not_eq_true] at hend
      by_cases hcase : t.isKeyword .CASE = true
      · obtain rfl := isKeyword_iff.mp hcase
        rw [splitCase_case] at h
        obtain ⟨body', rfl, hbody, hrest⟩ := hmore h
        exact ⟨.enter hbody, hrest⟩
      · rw [Bool.not_eq_true] at hcase
        rw [splitCase_other hend hcase] at h
        obtain ⟨body', rfl, hbody, hrest⟩ := hmore h
        exact ⟨.other hend hcase (fun _ => nofun) hbody, hrest⟩

end Closes

theorem length_of_splitCase {n : Nat} {after : List Token}
    (h : splitCase n tokens = some (body, after)) : body.length + after.length < tokens.length := by
  obtain ⟨-, rfl⟩ := Closes.of_splitCase h
  rw [length_append, length_cons]
  omega

theorem length_caseParts (open_ : Nat) (tokens : List Token) :
    (caseParts open_ tokens).1.length ≤ tokens.length ∧
      ∀ part ∈ (caseParts open_ tokens).2, part.2.length ≤ tokens.length := by
  induction tokens generalizing open_ with
  | nil => exact ⟨Nat.le_refl _, nofun⟩
  | cons t rest ih =>
    rw [caseParts]
    simp only [length_cons]
    split
    · obtain ⟨hlead, hparts⟩ := ih _
      refine ⟨Nat.zero_le _, forall_mem_cons.mpr ⟨Nat.le_succ_of_le hlead, ?_⟩⟩
      exact fun part hpart => Nat.le_succ_of_le (hparts part hpart)
    · obtain ⟨hlead, hparts⟩ := ih _
      exact ⟨Nat.succ_le_succ hlead, fun part hpart => Nat.le_succ_of_le (hparts part hpart)⟩

section

variable {f g : List Token → Except ParseError (List Token)}

theorem readArms_congr {parts : List (CaseMark × List Token)}
    {branches : List (List Token × List Token)} {otherwise : Option (List Token)}
    (h : ∀ part ∈ parts, f part.2 = g part.2) :
    readArms f parts branches otherwise = readArms g parts branches otherwise := by
  fun_induction readArms f parts branches otherwise with
  | case1 branches otherwise hempty => simp [readArms, hempty]
  | case2 branches otherwise hempty => simp [readArms, hempty]
  | case3 condition t result rest branches otherwise ih =>
    obtain ⟨hcondition, hparts⟩ := forall_mem_cons.mp h
    obtain ⟨hresult, hparts⟩ := forall_mem_cons.mp hparts
    simp only at hcondition hresult
    simp only [readArms, hcondition, hresult]
    refine bind_congr fun condition => bind_congr fun result => ?_
    exact ih _ _ hparts
  | case4 condition rest branches otherwise hthen =>
    rw [readArms]
    exact hthen
  | case5 body rest branches ih =>
    obtain ⟨hbody, hparts⟩ := forall_mem_cons.mp h
    simp only at hbody
    simp only [readArms, hbody]
    exact bind_congr fun body => ih _ hparts
  | case6 parts branches otherwise =>
    rw [readArms] <;> assumption

theorem readCase_congr (h : ∀ xs, xs.length ≤ body.length → f xs = g xs) :
    readCase f body = readCase g body := by
  obtain ⟨hlead, hparts⟩ := length_caseParts 0 body
  unfold readCase
  simp only [h _ hlead, readArms_congr fun part hpart => h _ (hparts part hpart)]

/-- Folding CASE expressions needs no more fuel than there are tokens, and finishes only lists that are
shorter than the level. -/
theorem foldCases_congr {n m : Nat} (h : ∀ xs, xs.length < tokens.length → f xs = g xs)
    (hn : tokens.length ≤ n) (hm : tokens.length ≤ m) :
    foldCases f n tokens = foldCases g m tokens := by
  induction n generalizing m tokens with
  | zero =>
    obtain rfl := length_eq_zero_iff.mp (Nat.le_zero.mp hn)
    cases m <;> rfl
  | succ n ih =>
    cases tokens with
    | nil => cases m <;> rfl
    | cons t rest =>
      obtain ⟨m, rfl⟩ : ∃ m', m = m' + 1 := ⟨m - 1, by simp only [length_cons] at hm; omega⟩
      simp only [length_cons, Nat.add_le_add_iff_right] at h hn hm
      simp only [foldCases]
      split
      · cases hsplit : splitCase 0 rest with
        | none => rfl
        | some parts =>
          obtain ⟨body, after⟩ := parts
          have hlength := length_of_splitCase hsplit
          have hbody : readCase f body = readCase g body :=
            readCase_congr fun xs hxs => h xs (by omega)
          have hafter : foldCases f n after = foldCases g m after :=
            ih (fun xs hxs => h xs (by omega)) (by omega) (by omega)
          simp only [hbody, hafter]
      · rw [ih (fun xs hxs => h xs (by omega)) hn hm]

end

/-- More fuel than there are tokens does not matter. -/
theorem finishWithin_eq {n m : Nat} (hn : tokens.length ≤ n) (hm : tokens.length ≤ m) :
    finishWithin n tokens = finishWithin m tokens := by
  have hnil (n : Nat) : finishWithin n [] = .ok [] := by cases n <;> rfl
  induction n generalizing m tokens with
  | zero =>
    obtain rfl := length_eq_zero_iff.mp (Nat.le_zero.mp hn)
    rw [hnil, hnil]
  | succ n ih =>
    cases m with
    | zero =>
      obtain rfl := length_eq_zero_iff.mp (Nat.le_zero.mp hm)
      rw [hnil, hnil]
    | succ m =>
      rw [finishWithin, finishWithin]
      rw [foldCases_congr (g := finishWithin m) (fun xs hxs => ih (by omega) (by omega))
        (Nat.le_refl _) (Nat.le_refl _)]

/-- A level is folded by folding its CASE expressions and then its operators and aliases. -/
theorem finish_eq (tokens : List Token) : finish tokens =
    (do let folded ← foldCases finish tokens.length tokens; return foldLevel folded) := by
  have hmore : finish tokens = finishWithin (tokens.length + 1) tokens :=
    finishWithin_eq (Nat.le_refl _) (Nat.le_succ _)
  rw [hmore, finishWithin]
  rw [foldCases_congr (g := finish) (fun xs hxs => finishWithin_eq (Nat.le_of_lt hxs) (Nat.le_refl _))
    (Nat.le_refl _) (Nat.le_refl _)]

/-! ### Semicolons at the end of a level -/

/-- Tokens that end a statement. -/
def semicolons (n : Nat) : List Token := replicate n (.punctuation ';')

theorem semicolons_succ (n : Nat) : semicolons (n + 1) = .punctuation ';' :: semicolons n := rfl

theorem foldBinary_append_semicolon (select : String → Option (Token → Token → Token))
    (out tokens : List Token) : foldBinary select out (tokens ++ [.punctuation ';']) =
      foldBinary select out tokens ++ [.punctuation ';'] := by
  fun_induction foldBinary select out tokens with
  | case1 out => simp [foldBinary]
  | case2 out t =>
    have hjoin : joinOver? select out t (.punctuation ';') = none := by
      unfold joinOver?
      split
      · split
        · simp [isOperand]
        · rfl
      · rfl
    simp [foldBinary, hjoin]
  | case3 out t right rest out' hjoin ih | case4 out t right rest hjoin ih =>
    rw [cons_append, cons_append, foldBinary, hjoin]
    exact ih

theorem foldAliases_append_semicolon (out tokens : List Token) :
    foldAliases out (tokens ++ [.punctuation ';']) =
      foldAliases out tokens ++ [.punctuation ';'] := by
  fun_induction foldAliases out tokens with
  | case1 out => simp [foldAliases, pushAlias]
  | case2 out t =>
    have halias : aliasAfterAs? out t (.punctuation ';') = none := by
      unfold aliasAfterAs?
      split
      · cases ‹_›
      · rfl
    simp [foldAliases, halias, pushAlias]
  | case3 out t next rest out' halias ih | case4 out t next rest halias ih =>
    rw [cons_append, cons_append, foldAliases, halias]
    exact ih

theorem foldLevel_append_semicolons (tokens : List Token) (n : Nat) :
    foldLevel (tokens ++ semicolons n) = foldLevel tokens ++ semicolons n := by
  induction n with
  | zero => rw [semicolons, replicate_zero, append_nil, append_nil]
  | succ n ih =>
    rw [semicolons, replicate_succ', ← append_assoc, ← append_assoc, ← semicolons, ← ih]
    simp only [foldLevel, foldBinary_append_semicolon, foldAliases_append_semicolon]

theorem splitCase_append {n : Nat} {after : List Token}
    (h : splitCase n tokens = some (body, after)) (tail : List Token) :
    splitCase n (tokens ++ tail) = some (body, after ++ tail) := by
  obtain ⟨hbody, rfl⟩ := Closes.of_splitCase h
  rw [append_assoc]
  exact hbody.splitCase_eq (after ++ tail)

section

variable {f : List Token → Except ParseError (List Token)}

theorem foldCases_semicolons (m n : Nat) : foldCases f m (semicolons n) = .ok (semicolons n) := by
  induction n generalizing m with
  | zero => cases m <;> rfl
  | succ n ih =>
    cases m with
    | zero => rfl
    | succ m =>
      rw [semicolons_succ, foldCases, if_neg (by simp [isKeyword]), ih]
      rfl

/-- The CASE expressions of a level are folded before those of what stands behind it. -/
theorem foldCases_append {k m : Nat} {folded : List Token} (tail : List Token)
    (h : foldCases f k tokens = .ok folded) (hk : tokens.length ≤ k)
    (hm : tokens.length + tail.length ≤ m) :
    foldCases f m (tokens ++ tail) = (folded ++ ·) <$> foldCases f tail.length tail := by
  have hnil {m : Nat} (hm : tail.length ≤ m) :
      foldCases f m ([] ++ tail) = ([] ++ ·) <$> foldCases f tail.length tail := by
    rw [nil_append, foldCases_congr (fun _ _ => rfl) hm (Nat.le_refl _)]
    exact (id_map _).symm
  induction k generalizing m tokens folded with
  | zero =>
    obtain rfl := length_eq_zero_iff.mp (Nat.le_zero.mp hk)
    cases h
    exact hnil (Nat.le_of_add_left_le hm)
  | succ k ih =>
    cases tokens with
    | nil =>
      cases h
      exact hnil (Nat.le_of_add_left_le hm)
    | cons t rest =>
      obtain ⟨m, rfl⟩ : ∃ m', m = m' + 1 := ⟨m - 1, by simp only [length_cons] at hm; omega⟩
      simp only [length_cons] at hk hm
      rw [cons_append, foldCases]
      rw [foldCases] at h
      split at h
      · rename_i hcase
        rw [if_pos hcase]
        cases hsplit : splitCase 0 rest with
        | none =>
          rw [hsplit] at h
          cases h
        | some parts =>
          obtain ⟨body, after⟩ := parts
          have hlength := length_of_splitCase hsplit
          rw [hsplit] at h
          obtain ⟨token, htoken, after', hafter, rfl⟩ := bind₂_eq_ok.mp h
          rw [splitCase_append hsplit]
          simp only [htoken, ih hafter (by omega) (m := m) (by omega)]
          cases foldCases f tail.length tail <;> rfl
      · rename_i hcase
        obtain ⟨rest', hrest, rfl⟩ := bind₁_eq_ok.mp h
        rw [if_neg hcase, ih hrest (by omega) (by omega)]
        cases foldCases f tail.length tail <;> rfl

end

/-- Semicolons at the end of a level stay there. -/
theorem finish_append_semicolons {finished : List Token} (h : finish tokens = .ok finished)
    (n : Nat) : finish (tokens ++ semicolons n) = .ok (finished ++ semicolons n) := by
  rw [finish_eq] at h ⊢
  obtain ⟨folded, hfolded, rfl⟩ := bind₁_eq_ok.mp h
  rw [foldCases_append (semicolons n) hfolded (Nat.le_refl _) (Nat.le_of_eq length_append.symm),
    foldCases_semicolons, ← foldLevel_append_semicolons]
  rfl

end Token

end DocSql
