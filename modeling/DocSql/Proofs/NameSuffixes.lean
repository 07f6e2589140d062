import DocSql.Proofs.FreshNames

/-! # The search for a free name

A free name can be searched for without a bound: as long as a name is refused, the next number is
put behind the base.  `NameSearch` says how such a search ends, and a search that goes on forever has
no end.  What refuses a name is a test that says which names are taken (`keepFree`), or a set that
the names are put into and that says whether they were there (`insertNew`).

Neither search goes on forever, for any names that are taken, and both find the name that
`freshName` picks among finitely many: the base, or the base with the least number that makes it
free.
-/
namespace DocSql

/-- The search from `name` on ends with what is made of the first name that is accepted.  The names
behind it have the numbers from `k` on. -/
inductive NameSearch {α : Type} (accept : String → Option α) (base : String) :
    String → Nat → α → Prop
  | found {name : String} {k : Nat} {a : α} (accepted : accept name = some a) :
    NameSearch accept base name k a
  | next {name : String} {k : Nat} {a : α} (refused : accept name = none)
    (rest : NameSearch accept base (base ++ "_" ++ toString k) (k + 1) a) :
    NameSearch accept base name k a

/-- Accepts the names that are not taken. -/
def keepFree (taken : String → Bool) (name : String) : Option String :=
  if taken name then none else some name

/-- Accepts the names that are new to a set, and puts them into it. -/
def insertNew (taken : List String) (name : String) : Option (String × List String) :=
  if name ∈ taken then none else some (name, name :: taken)

/-! ### What the searches find -/

/-- From any candidate on, the search ends, and with what the first one that is accepted gives. -/
theorem nameSearch_iff {α : Type} {accept : String → Option α} {base : String} {m : Nat} {a b : α}
    (haccept : accept (nameCandidate base m) = some a)
    (hrefuse : ∀ j < m, accept (nameCandidate base j) = none) {k : Nat} (hk : k ≤ m) :
    NameSearch accept base (nameCandidate base k) (k + 1) b ↔ b = a := by
  -- by induction on how far the accepted candidate is
  obtain ⟨d, rfl⟩ := Nat.exists_eq_add_of_le hk
  induction d generalizing k with
  | zero =>
    have hhere : accept (nameCandidate base k) = some a := haccept
    constructor
    · rintro (haccepted | ⟨hrefused, -⟩)
      · exact Option.some.inj (haccepted.symm.trans hhere)
      · cases hrefused.symm.trans hhere
    · rintro rfl
      exact .found hhere
  | succ d ih =>
    have hhere := hrefuse k (by omega)
    have hnext : k + (d + 1) = k + 1 + d := by omega
    rw [hnext] at haccept hrefuse
    have hrest := ih haccept hrefuse (by omega)
    constructor
    · rintro (haccepted | ⟨-, rest⟩)
      · cases hhere.symm.trans haccepted
      · exact hrest.mp rest
    · exact fun h => .next hhere (hrest.mpr h)

theorem nameSearch_keepFree {taken : List String} {base found : String} :
    NameSearch (keepFree fun name => taken.contains name) base base 1 found ↔
      found = freshName taken base := by
  obtain ⟨m, hm, hfree, htaken⟩ := freshName_least taken base
  rw [hm]
  refine nameSearch_iff ?_ (fun j hj => ?_) (Nat.zero_le m)
  · simp [keepFree, hfree]
  · simp [keepFree, htaken j hj]

theorem nameSearch_insertNew {taken : List String} {base : String} {found : String × List String} :
    NameSearch (insertNew taken) base base 1 found ↔
      found = (freshName taken base, freshName taken base :: taken) := by
  obtain ⟨m, hm, hfree, htaken⟩ := freshName_least taken base
  rw [hm]
  exact nameSearch_iff (if_neg hfree) (fun j hj => if_pos (htaken j hj)) (Nat.zero_le m)

/-! ### Which name it is -/

theorem freshName_of_mem {taken : List String} {base : String} (h : base ∈ taken) :
    ∃ k, 1 ≤ k ∧ freshName taken base = base ++ "_" ++ toString k ∧
      ∀ j, 1 ≤ j → j < k → base ++ "_" ++ toString j ∈ taken := by
  obtain ⟨m, hm, hfree, htaken⟩ := freshName_least taken base
  cases m with
  | zero => exact absurd h hfree
  | succ m =>
    refine ⟨m + 1, Nat.succ_pos m, hm, fun j hj hlt => ?_⟩
    obtain ⟨i, rfl⟩ := Nat.exists_eq_add_of_le' hj
    exact htaken (i + 1) hlt

/-- The name depends on which names are taken, and on nothing else. -/
theorem freshName_congr {taken taken' : List String} (h : ∀ name, name ∈ taken ↔ name ∈ taken')
    (base : String) : freshName taken base = freshName taken' base := by
  obtain ⟨m, hm, hfree, htaken⟩ := freshName_least taken base
  obtain ⟨m', hm', hfree', htaken'⟩ := freshName_least taken' base
  -- of two least numbers none is below the other
  have hle : ¬ m < m' := fun hlt => hfree ((h _).mpr (htaken' m hlt))
  have hge : ¬ m' < m := fun hlt => hfree' ((h _).mp (htaken m' hlt))
  rw [hm, hm', Nat.le_antisymm (Nat.not_lt.mp hge) (Nat.not_lt.mp hle)]

/-- Both searches end, whatever names are taken, and only with the name that is made up.  It is the
base if that is free, otherwise the base with the least number behind it that makes it free; it is
never a taken name, and it is the same for every list of the same names. -/
theorem name_search_minimal (taken : List String) (base : String) :
    (∀ found, NameSearch (keepFree fun name => taken.contains name) base base 1 found ↔
      found = freshName taken base) ∧
    (∀ found, NameSearch (insertNew taken) base base 1 found ↔
      found = (freshName taken base, freshName taken base :: taken)) ∧
    (base ∉ taken → freshName taken base = base) ∧
    (base ∈ taken → ∃ k, 1 ≤ k ∧ freshName taken base = base ++ "_" ++ toString k ∧
      ∀ j, 1 ≤ j → j < k → base ++ "_" ++ toString j ∈ taken) ∧
    freshName taken base ∉ taken ∧
    ∀ taken' : List String, (∀ name, name ∈ taken ↔ name ∈ taken') →
      freshName taken base = freshName taken' base :=
  ⟨fun _ => nameSearch_keepFree, fun _ => nameSearch_insertNew, freshName_of_not_mem,
    freshName_of_mem, freshName_not_mem taken base, fun _ h => freshName_congr h base⟩

-- a number that the query has put behind a name itself is passed over
example : freshName ["n", "n_1", "n_3"] "n" = "n_2" := by decide +kernel

end DocSql
