import Mathlib.Data.List.Forall2
import DocSql.Fault

/-! # Steps of compilation

A step of compilation gives a result or stops with a fault, and so does a step of reading a text.
The statements below take a sequence of steps apart, whatever its faults are: what it gives when its
first step has given a result, and what is known of its steps when the whole has given one.
-/
namespace DocSql
open List
namespace Compiled

variable {ε α β : Type}
variable {x : Except ε α} {f : α → Except ε β}

@[simp] theorem pure_def (a : α) : (pure a : Except ε α) = .ok a := rfl

@[simp] theorem ok_bind (a : α) (f : α → Except ε β) : (Except.ok a >>= f) = f a := rfl

@[simp] theorem error_bind (e : ε) (f : α → Except ε β) : (Except.error e >>= f) = .error e := rfl

@[simp] theorem bind_ok (x : Except ε α) : (x >>= fun a => .ok a) = x := by
  cases x <;> rfl

/-- A sequence gives a result exactly if both of its steps do. -/
theorem bind_eq_ok {b : β} : (x >>= f) = .ok b ↔ ∃ a, x = .ok a ∧ f a = .ok b := by
  cases x with
  | error e => simp
  | ok a => simp

theorem bind₁_eq_ok {g : α → β} {b : β} :
    (do let a ← x; return g a) = .ok b ↔ ∃ a, x = .ok a ∧ g a = b := by
  simp [bind_eq_ok]

theorem bind₂_eq_ok {γ : Type} {g : α → β → γ} {c : γ} :
    (do let a ← x; let b ← f a; return g a b) = .ok c ↔
      ∃ a, x = .ok a ∧ ∃ b, f a = .ok b ∧ g a b = c := by
  simp [bind_eq_ok]

theorem bind₃_eq_ok {γ δ : Type} {g : α → β → Except ε γ} {k : α → β → γ → δ} {d : δ} :
    (do let a ← x; let b ← f a; let c ← g a b; return k a b c) = .ok d ↔
      ∃ a, x = .ok a ∧ ∃ b, f a = .ok b ∧ ∃ c, g a b = .ok c ∧ k a b c = d := by
  simp [bind_eq_ok]

theorem map_eq_ok {f : α → β} {b : β} : f <$> x = .ok b ↔ ∃ a, x = .ok a ∧ f a = b := by
  cases x with
  | error e => exact ⟨nofun, nofun⟩
  | ok a =>
    constructor
    · rintro ⟨⟩
      exact ⟨a, rfl, rfl⟩
    · rintro ⟨_, ⟨⟩, rfl⟩
      rfl

/-- A sequence whose first step is one of two gives a result exactly if both of its steps do. -/
theorem ite_bind_eq_ok {c : Prop} [Decidable c] {y : Except ε α} {b : β} :
    (if c then x >>= f else y >>= f) = .ok b ↔ ∃ a, (if c then x else y) = .ok a ∧ f a = .ok b := by
  split
  all_goals exact bind_eq_ok

/-- What is made of a list step by step is made of its members, in their order. -/
theorem forall₂_of_mapM : ∀ {xs : List α} {ys : List β},
    xs.mapM f = .ok ys → Forall₂ (fun x y => f x = .ok y) xs ys
  | [], ys, h => by
    cases h
    exact .nil
  | x :: xs, ys, h => by
    rw [mapM_cons] at h
    obtain ⟨y, hy, rest, hrest, rfl⟩ := bind₂_eq_ok.mp h
    exact .cons hy (forall₂_of_mapM hrest)

/-- Each member of the second list has a partner in the first. -/
theorem exists_of_forall₂ {R : α → β → Prop} {xs : List α} {ys : List β}
    (h : Forall₂ R xs ys) : ∀ y ∈ ys, ∃ x ∈ xs, R x y := by
  induction h with
  | nil => exact forall_mem_nil _
  | @cons x y _ _ hxy _ ih =>
    intro z hz
    rcases mem_cons.mp hz with rfl | hz
    · exact ⟨x, mem_cons_self, hxy⟩
    · obtain ⟨w, hw, hR⟩ := ih z hz
      exact ⟨w, mem_cons_of_mem _ hw, hR⟩

section

variable {xs : List α} {ys : List β}

theorem exists_of_mapM (h : xs.mapM f = .ok ys) : ∀ y ∈ ys, ∃ x ∈ xs, f x = .ok y :=
  exists_of_forall₂ (forall₂_of_mapM h)

theorem exists_result_of_mapM (h : xs.mapM f = .ok ys) : ∀ x ∈ xs, ∃ y ∈ ys, f x = .ok y :=
  exists_of_forall₂ (forall₂_of_mapM h).flip

/-- What each step keeps is kept in the list. -/
theorem map_eq_of_mapM {γ : Type} {before : α → γ} {after : β → γ} (h : xs.mapM f = .ok ys)
    (hf : ∀ x y, f x = .ok y → after y = before x) : ys.map after = xs.map before := by
  have hall : Forall₂ (fun y x => after y = before x) ys xs := ((forall₂_of_mapM h).imp hf).flip
  have hmap := forall₂_map_left_iff.mpr (forall₂_map_right_iff.mpr hall)
  rwa [forall₂_eq_eq_eq] at hmap

end

/-- The result of a sequence, without the fault. -/
theorem toOption_bind (x : Except ε α) (f : α → Except ε β) :
    (x >>= f).toOption = x.toOption.bind fun a => (f a).toOption := by
  cases x <;> rfl

theorem toOption_bind_congr {y : Except ε α} (h : x.toOption = y.toOption) (f : α → Except ε β) :
    (x >>= f).toOption = (y >>= f).toOption := by
  rw [toOption_bind, toOption_bind, h]

@[simp] theorem toOption_ok (a : α) : (Except.ok a : Except ε α).toOption = some a := rfl

theorem toOption_eq_some {a : α} : x.toOption = some a ↔ x = .ok a := by
  cases x with
  | error e => exact ⟨nofun, nofun⟩
  | ok b => exact ⟨fun h => congrArg _ (Option.some.inj h), fun h => congrArg _ (Except.ok.inj h)⟩

/-- Two sequences that do not depend on each other give the same results when their first steps are
taken before their second ones. -/
theorem toOption_interleave {γ δ ζ : Type} (x : Except ε α) (y : Except ε β)
    (f : α → Except ε γ) (g : β → Except ε δ) (h : γ → δ → ζ) :
    (do let a ← x
        let b ← y
        let c ← f a
        let d ← g b
        return h c d : Except ε ζ).toOption =
      (do let c ← x >>= f
          let d ← y >>= g
          return h c d : Except ε ζ).toOption := by
  cases x with
  | error e => rfl
  | ok a =>
    cases y with
    | error e =>
      simp only [ok_bind, error_bind]
      cases f a <;> rfl
    | ok b => rfl

end Compiled
end DocSql
