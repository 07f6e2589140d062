import DocSql.Proofs.Respelling

/-! # What a lexeme depends on

A lexeme that ends before a placeholder sees at most the first character of it, and takes both
question marks and percent signs for the end of whatever it is: `scan_local` says that the lexeme
stays the same if the text from there on is exchanged for another that starts with such a sign.
-/
namespace DocSql

open Text List

variable {h h' : Char}

theorem isBlank_holeSign (hh : isHoleSign h = true) : Text.isBlank h = false := by
  rcases holeSign_cases hh with rfl | rfl <;> decide

theorem holeFree_holeSign (hh : isHoleSign h = true) (a x : List Char) :
    Scan.HoleFree (a ++ h :: x) ↔ Scan.HoleFree a := by
  rcases holeSign_cases hh with rfl | rfl
  all_goals exact Scan.holeFree_append_cons (by decide) (by decide) a x

theorem matchCapitals_local (hh : isHoleSign h = true) (hh' : isHoleSign h' = true)
    {ws : List Char} (hws : ∀ w ∈ ws, isHoleSign w = false) (a x y : List Char) :
    matchCapitals ws (a ++ h :: x) = matchCapitals ws (a ++ h' :: y) := by
  induction ws generalizing a with
  | nil =>
    cases a with
    | nil =>
      rw [nil_append, nil_append, matchCapitals_holeSign hh hws, matchCapitals_holeSign hh' hws]
    | cons c a => rfl
  | cons w ws ih =>
    have ih := ih fun v hv => hws v (mem_cons_of_mem _ hv)
    cases a with
    | nil =>
      rw [nil_append, nil_append, matchCapitals_holeSign hh hws, matchCapitals_holeSign hh' hws]
    | cons c a =>
      have hrun (z : List Char) : (a ++ z).drop (a.takeWhile Text.isBlank).length =
          a.drop (a.takeWhile Text.isBlank).length ++ z :=
        drop_append_of_le_length (List.takeWhile_prefix _).length_le
      rw [matchCapitals.eq_def, matchCapitals.eq_def (w :: ws) (c :: a ++ h' :: y)]
      simp only [cons_append, Scan.takeWhile_append_cons (isBlank_holeSign hh),
        Scan.takeWhile_append_cons (isBlank_holeSign hh'), hrun, ih]

theorem compound?_local (hh : isHoleSign h = true) (hh' : isHoleSign h' = true)
    (a x y : List Char) : compound? (a ++ h :: x) = compound? (a ++ h' :: y) := by
  have hfind (text : List Char) : compound? text = (Keyword.compounds.map fun k =>
      (matchWord k.text.toList text).map fun n => (k, n)).findSome? id := by
    rw [findSome?_map]
    rfl
  rw [hfind, hfind]
  refine congrArg (findSome? id) (map_congr_left fun k hk => ?_)
  rw [matchWord, matchWord, matchCapitals_local hh hh' (compounds_holeSign k hk) a x y]

/-- A lexeme that ends before a placeholder does not depend on the text from there on. -/
theorem scan_local (hh : isHoleSign h = true) (hh' : isHoleSign h' = true)
    (previous : Option LexemeKind) (holes : Nat) (c : Char) (a x y : List Char) (r : Scan)
    (hr : scan previous holes c (a ++ h :: x) = .ok r) (hmore : r.more ≤ a.length) :
    scan previous holes c (a ++ h' :: y) = .ok r := by
  obtain ⟨piece, rest, hsplit, hlength, hscans⟩ := exists_scans hr
  -- the lexeme takes `p`, and what stands behind it goes on to the sign
  obtain ⟨p, q, rfl, hp⟩ : ∃ p q, a = p ++ q ∧ r.more = p.length :=
    ⟨a.take r.more, a.drop r.more, (take_append_drop _ _).symm, by simp [hmore]⟩
  rw [append_assoc, ← cons_append] at hsplit
  obtain ⟨rfl, rfl⟩ := append_inj hsplit (by rw [length_cons, hlength, hp])
  have hends : EndsAlike (q ++ h :: x) (q ++ h' :: y) := by
    cases q with
    | nil => exact endsAlike_holeSign hh hh' x y
    | cons d q => exact fun _ _ => rfl
  have hfree (hkind : r.kind = .operator "%") : Scan.HoleFree (q ++ h' :: y) :=
    (holeFree_holeSign hh' q y).mpr ((holeFree_holeSign hh q x).mp (hscans.of_percent hkind))
  have hlocal : Scans previous holes (c :: p) (q ++ h' :: y) r.kind r.holes := by
    generalize r.kind = kind, r.holes = next at hscans hfree
    cases hscans with
    | compound mem spelled ends =>
      refine .compound mem spelled ?_
      cases q with
      | nil => rcases holeSign_cases hh with rfl | rfl <;> cases ends
      | cons d q => exact ends
    | simple none form =>
      refine .simple ?_ (form.alike hends hfree)
      rw [← append_assoc] at none ⊢
      rwa [← compound?_local hh hh' (c :: p ++ q) x y]
  obtain ⟨d, p', hpiece, -, hscan⟩ := hlocal.scan_eq
  cases hpiece
  rw [append_assoc, hscan, ← hp]

end DocSql
