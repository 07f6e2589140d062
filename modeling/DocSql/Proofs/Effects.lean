import DocSql.Fault

/-! # Steps that change a state

The store, a session and the reading of rows are changed by steps that may fail and that keep the
state when they do.  `effect` is what such a step gives, together with the state after it.  The
statements below take the effect of a sequence apart into those of its steps.
-/
namespace DocSql

section

variable {σ α β : Type}

/-- What a step gives, and the state after it. -/
def effect (step : ExceptT Fault (StateM σ) α) (s : σ) : Compiled α × σ := step.run.run s

@[simp] theorem effect_pure (a : α) (s : σ) :
    effect (pure a : ExceptT Fault (StateM σ) α) s = (.ok a, s) := rfl

@[simp] theorem effect_get_bind (f : σ → ExceptT Fault (StateM σ) β) (s : σ) :
    effect (get >>= f) s = effect (f s) s := rfl

@[simp] theorem effect_set_bind (f : PUnit → ExceptT Fault (StateM σ) β) (s s' : σ) :
    effect (set s' >>= f) s = effect (f ⟨⟩) s' := rfl

/-- A step that does not look at the state keeps it. -/
@[simp] theorem effect_lift (x : Compiled α) (s : σ) :
    effect (liftM x : ExceptT Fault (StateM σ) α) s = (x, s) := by
  cases x <;> rfl

/-- A sequence goes on from the state after its first step. -/
theorem effect_bind_of_ok {x : ExceptT Fault (StateM σ) α} {s s' : σ} {a : α}
    (h : effect x s = (.ok a, s')) (f : α → ExceptT Fault (StateM σ) β) :
    effect (x >>= f) s = effect (f a) s' := by
  have hrun : effect (x >>= f) s = ExceptT.bindCont f (x s).1 (x s).2 := rfl
  rw [hrun, show x s = (.ok a, s') from h]
  rfl

/-- A sequence ends where its first step fails. -/
theorem effect_bind_of_error {x : ExceptT Fault (StateM σ) α} {s s' : σ} {fault : Fault}
    (h : effect x s = (.error fault, s')) (f : α → ExceptT Fault (StateM σ) β) :
    effect (x >>= f) s = (.error fault, s') := by
  have hrun : effect (x >>= f) s = ExceptT.bindCont f (x s).1 (x s).2 := rfl
  rw [hrun, show x s = (.error fault, s') from h]
  rfl

end

end DocSql
