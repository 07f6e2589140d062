import Mathlib.Data.List.Nodup

/-! # Names in the order of their first occurrence

A list of names without its duplicates holds each name where it occurs first.  `newNames` goes
through the list with the names that are known already, so that statements about a list follow its
recursion.
-/
namespace DocSql
open List

/-- The names that are not known, each where it occurs first. -/
def newNames (known : List String) : List String → List String
  | [] => []
  | n :: ns => if n ∈ known then newNames known ns else n :: newNames (known ++ [n]) ns

section

variable {known known' ns rest : List String} {n : String}

theorem newNames_of_mem (h : n ∈ known) : newNames known (n :: ns) = newNames known ns := if_pos h

theorem newNames_of_not_mem (h : n ∉ known) :
    newNames known (n :: ns) = n :: newNames (known ++ [n]) ns := if_neg h

/-- Only which names are known matters. -/
theorem newNames_congr (h : ∀ n, n ∈ known ↔ n ∈ known') :
    newNames known ns = newNames known' ns := by
  fun_induction newNames known ns generalizing known' with
  | case1 => rfl
  | case2 known n ns hn ih => rw [newNames_of_mem ((h n).mp hn), ih h]
  | case3 known n ns hn ih =>
    rw [newNames_of_not_mem (mt (h n).mpr hn)]
    exact congrArg _ (ih fun m => by simp only [mem_append, h m])

theorem newNames_known (h : n ∈ known) : newNames (known ++ [n]) ns = newNames known ns :=
  newNames_congr fun m => by
    rw [mem_append, mem_singleton]
    exact ⟨fun hm => hm.elim id fun heq => heq ▸ h, .inl⟩

theorem mem_newNames {m : String} : m ∈ newNames known ns ↔ m ∈ ns ∧ m ∉ known := by
  fun_induction newNames known ns with
  | case1 => simp
  | case2 known n ns hn ih => grind
  | case3 known n ns hn ih => grind

theorem nodup_newNames : (newNames known ns).Nodup := by
  fun_induction newNames known ns with
  | case1 => exact nodup_nil
  | case2 known n ns hn ih => exact ih
  | case3 known n ns hn ih =>
    rw [nodup_cons, mem_newNames]
    exact ⟨fun h => h.2 (mem_append_right _ (mem_singleton_self n)), ih⟩

theorem eraseDups_eq_newNames (ns : List String) : ns.eraseDups = newNames [] ns := by
  have hfilter (known : List String) :
      (ns.filter fun n => n ∉ known).eraseDups = newNames known ns := by
    fun_induction newNames known ns with
    | case1 => rfl
    | case2 known n ns hn ih => rw [← ih, filter_cons_of_neg (by simpa using hn)]
    | case3 known n ns hn ih =>
      rw [← ih, filter_cons_of_pos (by simpa using hn), eraseDups_cons, filter_filter]
      congr 3
      funext m
      exact Bool.eq_iff_iff.mpr (by simp [and_comm])
  simpa using hfilter []

theorem nodup_eraseDups (ns : List String) : ns.eraseDups.Nodup := by
  rw [eraseDups_eq_newNames]
  exact nodup_newNames

theorem length_newNames_le : (newNames known ns).length ≤ ns.length := by
  fun_induction newNames known ns with
  | case1 => exact Nat.le_refl 0
  | case2 known n ns hn ih => exact Nat.le_succ_of_le ih
  | case3 known n ns hn ih => exact Nat.succ_le_succ ih

/-- All names are there exactly if each is new and none comes twice. -/
theorem length_newNames_eq_iff :
    (newNames known ns).length = ns.length ↔ ns.Nodup ∧ ∀ n ∈ ns, n ∉ known := by
  fun_induction newNames known ns with
  | case1 => simp
  | case2 known n ns hn ih =>
    have hle := @length_newNames_le known ns
    refine ⟨fun h => absurd h ?_, fun h => absurd hn (h.2 n mem_cons_self)⟩
    rw [length_cons]
    omega
  | case3 known n ns hn ih =>
    rw [length_cons, length_cons, Nat.add_right_cancel_iff, ih, nodup_cons]
    grind

/-- A name comes first exactly if it is the first one that is not known. -/
theorem newNames_eq_cons_iff : newNames known ns = n :: rest ↔
    ns.find? (fun m => m ∉ known) = some n ∧ newNames (known ++ [n]) ns = rest := by
  induction ns with
  | nil => simp [newNames]
  | cons m ns ih =>
    by_cases hm : m ∈ known
    · rw [newNames_of_mem hm, newNames_of_mem (mem_append_left _ hm), ih,
        find?_cons_of_neg (by simpa using hm)]
    · rw [newNames_of_not_mem hm, cons.injEq, find?_cons_of_pos (by simpa using hm),
        Option.some.injEq]
      refine and_congr_right fun heq => ?_
      subst heq
      rw [newNames_of_mem (mem_append_right _ (mem_singleton_self m))]

end

end DocSql
