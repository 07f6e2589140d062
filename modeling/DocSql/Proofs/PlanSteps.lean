import DocSql.Clause.Sorting
import DocSql.Proofs.Faults
import DocSql.Proofs.GroupingPlan
import DocSql.Proofs.TermReferences

/-! # What the steps of a plan leave alone

A grouping is planned step by step: each step may add fields, outputs and hidden outputs to the plan.
Whatever it adds, it leaves the plan in its place in the text, and it stops with few kinds of faults.
Behind a grouping there are only the keys and what has been collected, so lowering a term collects
the columns and the aggregates that it comes to; `Term.fetched` is what these refer to, and no step
collects anything else.  `Planning.Steady` says all of it at once, because it is carried through the
same sequences.
-/
namespace DocSql

open Compiled List

variable {columns : Columns} {g : Grouping} {t : Term}

/-! ### Fetched references -/

mutual

/-- What the columns and the aggregates of a term refer to, as far as a transformation of the term
comes to them. -/
def Term.fetched (into : Bool) : Term → List Reference
  | .column c => [.column c]
  | .aggregate _ _ arg => arg.references
  | .compare l _ r => l.fetched into ++ r.fetched into
  | .arith _ l r => l.fetched into ++ r.fetched into
  | .dateTrunc _ arg => if into then arg.fetched into else []
  | .caseOf arms => arms.fetched into
  | .countAll | .field _ | .param .. | .const _ => []

/-- What is fetched for branches. -/
def Arms.fetched (into : Bool) : Arms → List Reference
  | .done => []
  | .otherwise t => t.fetched into
  | .arm c t rest => c.fetched into ++ t.fetched into ++ rest.fetched into

/-- What is fetched for a condition. -/
def Condition.fetched (into : Bool) : Condition → List Reference
  | .all cs => fetchedAll into cs
  | .any cs => fetchedAll into cs
  | .compare l _ r => l.fetched into ++ r.fetched into
  | .member t _ _ => t.fetched into
  | .isNull t _ => t.fetched into
  | .between t low high _ => t.fetched into ++ low.fetched into ++ high.fetched into
  | .like t p _ _ => t.fetched into ++ p.fetched into
  | .truth t _ => t.fetched into

/-- What is fetched for conditions. -/
def fetchedAll (into : Bool) : List Condition → List Reference
  | [] => []
  | c :: cs => c.fetched into ++ fetchedAll into cs

end

/-! ### Steady steps -/

/-- The faults of planning a grouping. -/
inductive Fault.OfPlanning : Fault → Prop
  | writing {f : Fault} (h : f.OfWriting) : OfPlanning f
  | unknownAlias (name : String) : OfPlanning (.undecodable (.unknownAlias name))
  | aliasBeforeGrouping (name : String) : OfPlanning (.undecodable (.aliasBeforeGrouping name))
  | notAnAggregate (fn : String) : OfPlanning (.undecodable (.notAnAggregate fn))

/-- Where a grouping stands in the text: its span, and whether there is a clause. -/
def Grouping.place (g : Grouping) : Span × Bool := (g.span, g.explicit)

/-- What a group collects has been fetched: all that an aggregate refers to, or a column that has
the path. -/
def Collected.From (P : Reference → Prop) : Collected → Prop
  | .aggregate call _ => ∀ ref ∈ call.references, P ref
  | .first path => ∃ c : Column, P (.column c) ∧ c.path = path

/-- All that the plan collects has been fetched. -/
def Grouping.From (P : Reference → Prop) (g : Grouping) : Prop :=
  ∀ field ∈ g.fields, field.source.From P

/-- In a plan, a step leaves the grouping in its place, collects only what has been fetched, and stops
with a fault of planning only. -/
def Planning.SteadyAt {α : Type} (P : Reference → Prop) (g : Grouping)
    (x : Compiled (α × Grouping)) : Prop :=
  FaultsIn Fault.OfPlanning x ∧
    ∀ a g', x = .ok (a, g') → g'.place = g.place ∧ (g.From P → g'.From P)

/-- A planning step is steady in every plan. -/
def Planning.Steady {α : Type} (P : Reference → Prop) (p : Planning α) : Prop :=
  ∀ g, Planning.SteadyAt P g (p.run g)

namespace Planning

variable {α β : Type} {P : Reference → Prop}

theorem steadyAt_ok {g' : Grouping} {a : α} (hplace : g'.place = g.place)
    (hfrom : g.From P → g'.From P) : SteadyAt P g (.ok (a, g')) := by
  refine ⟨faultsIn_ok _, ?_⟩
  rintro b h ⟨⟩
  exact ⟨hplace, hfrom⟩

theorem SteadyAt.bind {x : Compiled (α × Grouping)} {k : α × Grouping → Compiled (β × Grouping)}
    (hx : SteadyAt P g x) (hk : ∀ a g', x = .ok (a, g') → SteadyAt P g' (k (a, g'))) :
    SteadyAt P g (x >>= k) := by
  refine ⟨hx.1.bind fun r hr => (hk r.1 r.2 hr).1, ?_⟩
  intro b g' hrun
  obtain ⟨⟨a, g₁⟩, hfirst, hsecond⟩ := bind_eq_ok.mp hrun
  obtain ⟨hplace, hfrom⟩ := hx.2 a g₁ hfirst
  obtain ⟨hplace', hfrom'⟩ := (hk a g₁ hfirst).2 b g' hsecond
  exact ⟨hplace'.trans hplace, hfrom' ∘ hfrom⟩

theorem Steady.pure (a : α) : Steady P (pure a : Planning α) := fun _ => steadyAt_ok rfl id

theorem Steady.bind {p : Planning α} {k : α → Planning β} (hp : Steady P p)
    (hk : ∀ a, Steady P (k a)) : Steady P (p >>= k) := by
  intro g
  rw [StateT.run_bind]
  exact (hp g).bind fun a g' _ => hk a g'

/-- A step of compilation inside a planning step. -/
theorem Steady.lift {x : Compiled α} (h : FaultsIn Fault.OfPlanning x) :
    Steady P (liftM x : Planning α) := by
  intro g
  cases x with
  | error f => exact ⟨faultsIn_error.mpr (faultsIn_error.mp h), nofun⟩
  | ok a => exact Steady.pure a g

theorem Steady.throw {f : Fault} (h : f.OfPlanning) : Steady P (throw f : Planning α) :=
  fun _ => ⟨faultsIn_error.mpr h, nofun⟩

end Planning

/-! ### Transforming -/

section

variable {P : Reference → Prop} {f : Term → Planning (Option Term)} {into : Bool}

open Planning (Steady)

theorem Planning.steady_replaceOr {parts : Planning Term} (hf : Steady P (f t))
    (hparts : Steady P parts) : Steady P (replaceOr f t parts) := by
  refine hf.bind fun choice => ?_
  cases choice with
  | some u => exact .pure u
  | none => exact hparts

/-- A term that is replaced as a whole. -/
theorem Term.transform_replaced {g' : Grouping} {u : Term} (h : (f t).run g = .ok (some u, g')) :
    (t.transform f into).run g = .ok (u, g') := by
  have hreplace (parts : Planning Term) : (replaceOr f t parts).run g = .ok (u, g') := by
    rw [replaceOr, StateT.run_bind, h]
    rfl
  cases t <;> exact hreplace _

variable (hf : ∀ t, (∀ ref ∈ t.fetched into, P ref) → Steady P (f t))
include hf

set_option linter.unusedSectionVars false in
mutual

/-- A transformation is steady if its step is for the terms that it comes to. -/
theorem Term.steady_transform :
    ∀ t : Term, (∀ ref ∈ t.fetched into, P ref) → Steady P (t.transform f into)
  | .compare l op r, h | .arith op l r, h => by
    have hparts := forall_mem_append.mp h
    exact Planning.steady_replaceOr (hf _ h) <|
      (Term.steady_transform l hparts.1).bind fun _ =>
        (Term.steady_transform r hparts.2).bind fun _ => .pure _
  | .dateTrunc unit arg, h => by
    refine Planning.steady_replaceOr (hf _ h) ?_
    rw [Term.fetched] at h
    split
    · rename_i hinto
      rw [if_pos hinto] at h
      exact (Term.steady_transform arg h).bind fun _ => .pure _
    · exact .pure _
  | .caseOf arms, h => Planning.steady_replaceOr (hf _ h) <|
    (Arms.steady_transform arms h).bind fun _ => .pure _
  | .column _, h | .field _, h | .countAll, h | .aggregate .., h | .param .., h | .const _, h =>
    Planning.steady_replaceOr (hf _ h) (.pure _)

theorem Arms.steady_transform :
    ∀ arms : Arms, (∀ ref ∈ arms.fetched into, P ref) → Steady P (arms.transform f into)
  | .done, _ => .pure _
  | .otherwise t, h => (Term.steady_transform t h).bind fun _ => .pure _
  | .arm c t rest, h => by
    obtain ⟨hfirst, hrest⟩ := forall_mem_append.mp h
    obtain ⟨hc, ht⟩ := forall_mem_append.mp hfirst
    exact (Condition.steady_transform c hc).bind fun _ =>
      (Term.steady_transform t ht).bind fun _ =>
        (Arms.steady_transform rest hrest).bind fun _ => .pure _

theorem Condition.steady_transform :
    ∀ c : Condition, (∀ ref ∈ c.fetched into, P ref) → Steady P (c.transform f into)
  | .all cs, h | .any cs, h => (steady_transformAll cs h).bind fun _ => .pure _
  | .compare l _ r, h => by
    obtain ⟨hl, hr⟩ := forall_mem_append.mp h
    exact (Term.steady_transform l hl).bind fun _ =>
      (Term.steady_transform r hr).bind fun _ => .pure _
  | .member t _ _, h | .isNull t _, h
  | .truth t _, h => (Term.steady_transform t h).bind fun _ => .pure _
  | .between t low high _, h => by
    obtain ⟨hfirst, hhigh⟩ := forall_mem_append.mp h
    obtain ⟨ht, hlow⟩ := forall_mem_append.mp hfirst
    exact (Term.steady_transform t ht).bind fun _ =>
      (Term.steady_transform low hlow).bind fun _ =>
        (Term.steady_transform high hhigh).bind fun _ => .pure _
  | .like t p _ _, h => by
    obtain ⟨ht, hp⟩ := forall_mem_append.mp h
    exact (Term.steady_transform t ht).bind fun _ =>
      (Term.steady_transform p hp).bind fun _ => .pure _

theorem steady_transformAll :
    ∀ cs : List Condition, (∀ ref ∈ fetchedAll into cs, P ref) → Steady P (transformAll f into cs)
  | [], _ => .pure _
  | c :: cs, h => by
    obtain ⟨hc, hcs⟩ := forall_mem_append.mp h
    exact (Condition.steady_transform c hc).bind fun _ =>
      (steady_transformAll cs hcs).bind fun _ => .pure _

end

end

/-! ### The steps of a plan -/

/-- An accumulator is an expression over the argument of the call, so it fails as one. -/
theorem Term.faultsIn_accumulator (t : Term) : FaultsIn Fault.OfPlanning t.accumulator := by
  have hwritten (arg : Term) (k : Value → Value) :
      FaultsIn Fault.OfPlanning (arg.expression >>= fun v => .ok (k v)) := by
    exact ((Term.faultsIn_expression arg).mono fun _ => .writing).bind_ok
  unfold Term.accumulator
  split
  · exact faultsIn_ok _
  · exact hwritten _ _
  · exact hwritten _ _
  · exact faultsIn_unsupported.mpr (.writing (.unsupported _))
  · exact hwritten _ _
  · exact faultsIn_undecodable.mpr (.notAnAggregate _)

namespace Grouping

variable {P : Reference → Prop}

open Planning (Steady SteadyAt steadyAt_ok)

theorem From.addField (hg : g.From P) {name : String} {source : Collected}
    (hsource : source.From P) : (g.addField name source).From P := by
  intro field hfield
  rcases mem_append.mp hfield with hold | hnew
  · exact hg field hold
  · cases mem_singleton.mp hnew
    exact hsource

theorem steady_carry {c : Column} (h : P (.column c)) : Steady P (carry c.path) := by
  intro g
  rw [carry_run]
  cases g.fields.find? fun field => field.source.isFirst c.path with
  | some field => exact steadyAt_ok rfl id
  | none => exact steadyAt_ok rfl fun hg => hg.addField ⟨c, h, rfl⟩

theorem steady_accumulate {call : Term} (h : ∀ ref ∈ call.references, P ref) :
    Steady P (accumulate call) := by
  intro g
  rw [accumulate_run]
  cases g.fields.find? fun field => field.source.isCall call with
  | some field => exact steadyAt_ok rfl id
  | none =>
    cases haccumulator : call.accumulator with
    | error f =>
      have hfault := Term.faultsIn_accumulator call
      rw [haccumulator] at hfault
      exact ⟨faultsIn_error.mpr (faultsIn_error.mp hfault), nofun⟩
    | ok accumulator => exact steadyAt_ok rfl fun hg => hg.addField h

theorem steady_lowerForm (h : ∀ ref ∈ t.fetched true, P ref) : Steady P (lowerForm t) := by
  rw [lowerForm.eq_def]
  split
  · exact (steady_carry (forall_mem_singleton.mp h)).bind fun _ => .pure _
  · exact .throw (.aliasBeforeGrouping _)
  · split
    · rename_i hcall
      refine (steady_accumulate ?_).bind fun _ => .pure _
      cases t with
      | countAll => exact forall_mem_nil _
      | aggregate fn d arg => exact h
      | _ => cases hcall
    · exact .pure _

theorem steady_lowerNode (h : ∀ ref ∈ t.fetched true, P ref) : Steady P (lowerNode t) := by
  intro g
  rw [lowerNode_run]
  split
  · exact Steady.pure _ g
  · exact steady_lowerForm h g

theorem steady_lower (h : ∀ ref ∈ t.fetched true, P ref) : Steady P (lower t) :=
  Term.steady_transform (fun _ => steady_lowerNode) t h

theorem steady_addItems : ∀ {items : List SelectItem},
    (∀ item ∈ items, ∀ ref ∈ item.term.fetched true, P ref) → Steady P (addItems items)
  | [], _ => .pure _
  | item :: items, h => by
    obtain ⟨hitem, hitems⟩ := forall_mem_cons.mp h
    refine (steady_lower hitem).bind fun out => .bind ?_ fun _ => steady_addItems hitems
    exact fun _ => steadyAt_ok rfl id

/-- A hidden output is as steady as lowering its term is in the plan at hand. -/
theorem steadyAt_exposeHidden (h : SteadyAt P g ((lower t).run g)) :
    SteadyAt P g ((exposeHidden t).run g) := by
  rw [exposeHidden_run]
  cases g.hidden.find? fun known => known.1.same t with
  | some known => exact steadyAt_ok rfl id
  | none => exact h.bind fun _ _ _ => steadyAt_ok rfl id

theorem steady_expose (h : ∀ ref ∈ t.fetched true, P ref) : Steady P (expose columns t) := by
  rw [expose.eq_def]
  split
  · refine .bind (.lift ?_) fun _ => .pure _
    unfold Columns.byName
    split
    · exact faultsIn_ok _
    · exact faultsIn_undecodable.mpr (.unknownAlias _)
  · split
    · exact .pure _
    · exact fun g => steadyAt_exposeHidden (steady_lower h g)

/-- An operand of HAVING that is known as a whole collects nothing, unless it is a column or an
aggregate. -/
theorem steady_exposeNode (h : ∀ ref ∈ t.fetched false, P ref) :
    Steady P (exposeNode columns t) := by
  intro g
  show SteadyAt P g ((if g.knows columns t then do return some (.field (← expose columns t))
    else return none : Planning (Option Term)).run g)
  split
  · rename_i hknows
    rw [StateT.run_bind]
    refine SteadyAt.bind ?_ fun _ _ _ => steadyAt_ok rfl id
    by_cases hleaf : t.fieldPath?.isSome = true ∨ t.isAggregate = true
    · have hsame : t.fetched true = t.fetched false := by
        cases t <;> first | rfl | simp [Term.fieldPath?, Term.isAggregate] at hleaf
      exact steady_expose (hsame ▸ h) g
    · rw [expose.eq_def]
      split
      · exact absurd (.inl rfl) hleaf
      · split
        · exact Steady.pure _ g
        · rename_i hitem
          -- of what makes a term known only the keys are left, and a key lowers to itself
          have hkey : (g.key? t).isSome = true := by
            simpa [knows, hitem, or_assoc, hleaf] using hknows
          obtain ⟨key, hkey⟩ := Option.isSome_iff_exists.mp hkey
          have hnode : (lowerNode t).run g = .ok (some (.field ("_id." ++ key.name)), g) := by
            rw [lowerNode_run, hkey]
          refine steadyAt_exposeHidden ?_
          rw [lower, Term.transform_replaced hnode]
          exact steadyAt_ok rfl id
  · exact Steady.pure _ g

theorem steady_having {asked : Condition} (h : ∀ ref ∈ asked.fetched false, P ref) :
    Steady P (asked.transform (exposeNode columns) false) :=
  Condition.steady_transform (fun _ => steady_exposeNode) asked h

end Grouping

theorem Sorting.steady_exposeKeys {P : Reference → Prop} :
    ∀ {keys : List SortKey}, (∀ key ∈ keys, ∀ ref ∈ key.term.fetched true, P ref) →
      Planning.Steady P (Sorting.exposeKeys columns keys)
  | [], _ => .pure _
  | key :: keys, h => by
    obtain ⟨hkey, hkeys⟩ := forall_mem_cons.mp h
    exact (Grouping.steady_expose hkey).bind fun _ =>
      (Sorting.steady_exposeKeys hkeys).bind fun _ => .pure _

end DocSql
