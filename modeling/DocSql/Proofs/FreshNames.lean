import DocSql.Clause.Grouping
import DocSql.Proofs.Steps
import Mathlib.Data.List.Nodup
import Mathlib.Data.List.Perm.Subperm

/-! # Names that are made up

A made-up name is free: among the candidates for a base no two are equal, and there is one more of
them than there are taken names.  A number behind a name brings no dot into it, so a base without
dots gives a name without dots.  The names of the SELECT list and of the keys of a grouping are made
up one after the other, each beside those before, so they are pairwise different.
-/
namespace DocSql
open Compiled List

variable {base : String} {r : Reading}

/-! ### Freshness -/

theorem toString_nat_injective {a b : Nat} (h : toString a = toString b) : a = b := by
  have hdigits : Nat.toDigits 10 a = Nat.toDigits 10 b := by
    simpa [Nat.toString_eq_repr, Nat.toList_repr] using congrArg String.toList h
  simpa using congrArg (fun digits => Nat.ofDigitChars 10 digits 0) hdigits

theorem nameCandidate_injective (base : String) {j k : Nat}
    (h : nameCandidate base j = nameCandidate base k) : j = k := by
  -- a name is shorter than the same name with a number behind it
  have hlonger (k : Nat) : base ≠ base ++ "_" ++ toString (k + 1) := by
    intro heq
    have hlength := congrArg (fun s => s.toList.length) heq
    simp at hlength
  cases j with
  | zero =>
    cases k with
    | zero => rfl
    | succ k => exact absurd h (hlonger k)
  | succ j =>
    cases k with
    | zero => exact absurd h.symm (hlonger j)
    | succ k => exact toString_nat_injective ((String.append_right_inj _).mp h)

/-- The made-up name is the first candidate that is not taken. -/
theorem freshName_least (taken : List String) (base : String) :
    ∃ k, freshName taken base = nameCandidate base k ∧ nameCandidate base k ∉ taken ∧
      ∀ j < k, nameCandidate base j ∈ taken := by
  unfold freshName
  simp only [find?_map]
  cases hfind : (range (taken.length + 1)).find?
      ((fun name => !taken.contains name) ∘ nameCandidate base) with
  | some k =>
    obtain ⟨hfree, -, hbefore⟩ := find?_range_eq_some.mp hfind
    exact ⟨k, rfl, by simpa using hfree, fun j hj => by simpa using hbefore j hj⟩
  | none =>
    -- otherwise the candidates are as many different names among fewer
    have hall : (range (taken.length + 1)).map (nameCandidate base) ⊆ taken := by
      intro name hname
      obtain ⟨k, hk, rfl⟩ := mem_map.mp hname
      simpa using find?_eq_none.mp hfind k hk
    have hnodup : ((range (taken.length + 1)).map (nameCandidate base)).Nodup :=
      nodup_range.map fun _ _ h => nameCandidate_injective base h
    have hlength := (hnodup.subperm hall).length_le
    rw [length_map, length_range] at hlength
    omega

theorem freshName_not_mem (taken : List String) (base : String) : freshName taken base ∉ taken := by
  obtain ⟨k, hk, hfree, -⟩ := freshName_least taken base
  rwa [hk]

theorem freshName_of_not_mem {taken : List String} (h : base ∉ taken) :
    freshName taken base = base := by
  simp [freshName, range_succ_eq_map, nameCandidate, h]

/-! ### Names without dots -/

/-- A name that is one field and not a path. -/
def Dotless (name : String) : Prop := '.' ∉ name.toList

instance (name : String) : Decidable (Dotless name) := inferInstanceAs (Decidable ('.' ∉ _))

theorem Dotless.append {a b : String} (ha : Dotless a) (hb : Dotless b) : Dotless (a ++ b) := by
  simp_all [Dotless]

theorem dotless_toString (n : Nat) : Dotless (toString n) := by
  intro hmem
  rw [Nat.toString_eq_repr, Nat.toList_repr] at hmem
  exact absurd (Nat.isDigit_of_mem_toDigits (by decide) (by decide) hmem) (by decide)

theorem dotless_freshName (taken : List String) (h : Dotless base) :
    Dotless (freshName taken base) := by
  obtain ⟨k, hk, -⟩ := freshName_least taken base
  rw [hk]
  cases k with
  | zero => exact h
  | succ k => exact (h.append (by decide)).append (dotless_toString _)

theorem splitDots_dotless (cs : List Char) : ∀ piece ∈ splitDots cs, '.' ∉ piece := by
  induction cs with
  | nil => simp [splitDots]
  | cons c cs ih =>
    rw [splitDots]
    split
    · simpa using ih
    · rename_i hc
      split
      · simp [Ne.symm hc]
      · rename_i first rest hsplit
        rw [hsplit] at ih
        simp_all [Ne.symm hc]

theorem intercalate_dotless {sep : List Char} (hsep : '.' ∉ sep) {pieces : List (List Char)}
    (h : ∀ piece ∈ pieces, '.' ∉ piece) : '.' ∉ sep.intercalate pieces := by
  induction pieces with
  | nil => simp
  | cons piece pieces ih =>
    have hpiece := h piece mem_cons_self
    have hrest := ih fun other hother => h other (mem_cons_of_mem _ hother)
    cases pieces with
    | nil => simpa using hpiece
    | cons next pieces =>
      rw [intercalate_cons_cons]
      simp [hpiece, hsep, hrest]

theorem dotless_dotless (name : String) : Dotless (dotless name) := by
  unfold Dotless dotless replaceDots
  rw [String.toList_intercalate]
  refine intercalate_dotless (by decide) ?_
  intro piece hpiece
  obtain ⟨_, hs, rfl⟩ := mem_map.mp hpiece
  obtain ⟨cs, hcs, rfl⟩ := mem_map.mp hs
  simpa using splitDots_dotless name.toList cs hcs

/-! ### Lists of new names -/

/-- Names that are different from each other and from those that are taken. -/
structure FreshFrom (taken names : List String) : Prop where
  nodup : names.Nodup
  free : ∀ name ∈ names, name ∉ taken

namespace FreshFrom

variable {taken names : List String}

theorem nil : FreshFrom taken [] := ⟨.nil, nofun⟩

/-- A new name is taken for those after it. -/
theorem cons (h : FreshFrom (freshName taken base :: taken) names) :
    FreshFrom taken (freshName taken base :: names) where
  nodup := nodup_cons.mpr ⟨fun hmem => h.free _ hmem mem_cons_self, h.nodup⟩
  free name hname := by
    rcases mem_cons.mp hname with rfl | hname
    · exact freshName_not_mem taken base
    · exact fun htaken => h.free name hname (mem_cons_of_mem _ htaken)

end FreshFrom

theorem SelectItem.readAll_names : ∀ {pieces : List (List Token)}
    {taken : List String} {place : Nat} {items : List SelectItem},
    SelectItem.readAll r taken place pieces = .ok items →
    FreshFrom taken (items.map (·.name))
  | [], _, _, _, h => by
    cases h
    exact .nil
  | piece :: pieces, taken, place, items, h => by
    obtain ⟨⟨t, label⟩, -, term, -, rest, hrest, rfl⟩ := bind₃_eq_ok.mp h
    exact (SelectItem.readAll_names hrest).cons

theorem Columns.read_names {tokens : List Token} {start : Nat} {columns : Columns}
    (h : Columns.read r tokens start = .ok columns) : columns.names.Nodup := by
  rw [Columns.read] at h
  split at h
  · cases h
  · obtain ⟨items, hitems, rfl⟩ := bind₁_eq_ok.mp h
    exact (SelectItem.readAll_names hitems).nodup

theorem Grouping.dotless_keyBase (columns : Columns) (place : Nat) (t : Term) :
    Dotless (Grouping.keyBase columns place t) := by
  unfold Grouping.keyBase
  split
  · exact dotless_dotless _
  · exact Dotless.append (by decide) (dotless_toString place)

theorem Grouping.readKeys_names {columns : Columns} :
    ∀ {pieces : List (List Token)} {taken : List String} {place : Nat} {keys : List GroupKey},
    Grouping.readKeys r columns taken place pieces = .ok keys →
    FreshFrom taken (keys.map (·.name)) ∧ ∀ key ∈ keys, Dotless key.name
  | [], _, _, _, h => by
    cases h
    exact ⟨.nil, nofun⟩
  | piece :: pieces, taken, place, keys, h => by
    obtain ⟨term, -, rest, hrest, rfl⟩ := bind₂_eq_ok.mp h
    obtain ⟨hfresh, hdotless⟩ := Grouping.readKeys_names hrest
    refine ⟨hfresh.cons, ?_⟩
    intro key hkey
    rcases mem_cons.mp hkey with rfl | hkey
    · exact dotless_freshName _ (Grouping.dotless_keyBase _ _ _)
    · exact hdotless key hkey

end DocSql
