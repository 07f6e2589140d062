import DocSql.Proofs.GroupingFaithful
import DocSql.Proofs.PathReads

/-! # What is read after a grouping

After a grouping the projection of its outputs reads keys and collected fields.  Every path that the
planning of the grouping reaches is of that kind.  What it does not reach stays a path of the rows:
the members of lists of values, and texts inside constant documents and arrays.
-/
namespace DocSql
open List

/-! ### Reached paths of rewritten terms -/

section

variable {N : Term → Term → Prop} {into : Bool} {P : String → Prop}
  (hN : ∀ {t u}, N t u → ∀ p ∈ u.walked into, P p)
include hN

set_option linter.unusedSectionVars false in
mutual

/-- The reached paths of a rewritten term are those of the replacements. -/
theorem Term.Rewritten.walked :
    ∀ {t u : Term}, Term.Rewritten N into t u → ∀ p ∈ u.walked into, P p
  | _, _, .replaced h => hN h
  | _, _, .compare _ hl hr
  | _, _, .arith _ hl hr => forall_mem_append.mpr ⟨hl.walked, hr.walked⟩
  | _, _, .dateTrunc _ hinto ha => by
    rw [Term.walked, if_pos hinto]
    exact ha.walked
  | _, _, .call _ hinto => by
    rw [Term.walked, if_neg (by simp [hinto])]
    exact nofun
  | _, _, .caseOf h => Arms.Rewritten.walked h
  | _, _, .param .. => nofun
  | _, _, .const _ => nofun

theorem Arms.Rewritten.walked :
    ∀ {a b : Arms}, Arms.Rewritten N into a b → ∀ p ∈ b.walked into, P p
  | _, _, .done => nofun
  | _, _, .otherwise h => Term.Rewritten.walked h
  | _, _, .arm hc ht hrest => forall_mem_append.mpr
    ⟨forall_mem_append.mpr
      ⟨Condition.Rewritten.walked hc, Term.Rewritten.walked ht⟩, hrest.walked⟩

theorem Condition.Rewritten.walked :
    ∀ {a b : Condition}, Condition.Rewritten N into a b → ∀ p ∈ b.walked into, P p
  | _, _, .all h => RewrittenAll.walked h
  | _, _, .any h => RewrittenAll.walked h
  | _, _, .compare _ hl hr => forall_mem_append.mpr
    ⟨Term.Rewritten.walked hl, Term.Rewritten.walked hr⟩
  | _, _, .member _ _ h | _, _, .isNull _ h | _, _, .like _ _ h _
  | _, _, .truth _ h => Term.Rewritten.walked h
  | _, _, .between _ ht hlow hhigh => forall_mem_append.mpr
    ⟨forall_mem_append.mpr
      ⟨Term.Rewritten.walked ht, Term.Rewritten.walked hlow⟩, Term.Rewritten.walked hhigh⟩

theorem RewrittenAll.walked :
    ∀ {a b : List Condition}, RewrittenAll N into a b → ∀ p ∈ allWalked into b, P p
  | _, _, .nil => nofun
  | _, _, .cons hc hcs => forall_mem_append.mpr ⟨Condition.Rewritten.walked hc, hcs.walked⟩

end

end

/-! ### Stages -/

/-- Whether a value in a projection takes the field in or leaves it out, where it does one of them. -/
def Value.chooses? : Value → Option Bool
  | .bool b => some b
  | .int n => some (n != 0)
  | .float (.finite _ mantissa _) => some (mantissa != 0)
  | .float (.infinite _) => some true
  | _ => none

/-- The paths that a field of a projection reads. -/
def projectionReads (entry : String × Value) : List String :=
  match entry.2.chooses? with
  | some true => [entry.1]
  | some false => []
  | none => exprReads entry.2

/-- The paths that a stage reads, of those that stand behind a grouping. -/
def stageReads : Value → List String
  | .object [(name, .object fields)] =>
    if name = "$project" then fields.flatMap projectionReads
    else if name = "$match" then filterReads (.object fields)
    else if name = "$addFields" then fieldReads fields
    else if name = "$sort" then fields.map (·.1)
    else []
  | _ => []

/-! ### The projection of the outputs -/

/-- The paths that the projection of an output reads and lowering has left as they are.  The result
of a CASE term without WHEN may be a number, which takes in the field of that name. -/
def Grouping.outputStray (output : String × Term) : List String :=
  match output.2.fieldPath?, output.2.constant?, output.2.expression with
  | none, none, .ok e =>
    match e.chooses? with
    | some true => [output.1]
    | some false => []
    | none => output.2.stray true
  | _, _, _ => []

/-- An output that is a field under its own name is taken in, and any other is computed. -/
theorem Grouping.projectOutput_eq_ok {name : String} {out : Term} {entry : String × Value}
    (h : Grouping.projectOutput (name, out) = .ok entry) :
    (out = .field name ∧ entry = (name, .int 1)) ∨
      ∃ v, out.projected = .ok v ∧ entry = (name, v) := by
  cases out with
  | field field =>
    simp only [Grouping.projectOutput] at h
    split at h
    · rename_i heq
      cases h
      exact .inl ⟨by rw [heq], rfl⟩
    · cases h
      exact .inr ⟨_, rfl, rfl⟩
  | _ =>
    obtain ⟨v, hv, rfl⟩ := Compiled.bind₁_eq_ok.mp h
    exact .inr ⟨v, hv, rfl⟩

/-- A path that lowering has not reached is read by the projection of an output exactly if it is
stray. -/
theorem Grouping.mem_projectOutput {p name : String} {out : Term} (hp : p ∉ out.walked true)
    {entry : String × Value} (h : Grouping.projectOutput (name, out) = .ok entry) :
    p ∈ projectionReads entry ↔ p ∈ Grouping.outputStray (name, out) := by
  rcases Grouping.projectOutput_eq_ok h with ⟨rfl, rfl⟩ | ⟨v, hv, rfl⟩
  · have hstray : Grouping.outputStray (name, .field name) = [] := rfl
    have hne : p ≠ name := fun heq => hp (heq ▸ mem_singleton.mpr rfl)
    simpa [hstray, projectionReads, Value.chooses?] using hne
  rw [Term.projected] at hv
  split at hv
  · rename_i value hconstant
    cases hv
    simp [Grouping.outputStray, hconstant, projectionReads, Value.field, Value.chooses?,
      exprReads_object, fieldReads]
  · rename_i hconstant
    cases hpath : out.fieldPath? with
    | some path =>
      have hread : exprReads v = [path] ∧ v.chooses? = none := by
        cases out with
        | column c | field field =>
          cases hpath
          cases hv
          exact ⟨exprReads_path _, rfl⟩
        | _ => cases hpath
      have hne : p ≠ path := fun heq => hp (heq ▸ Term.mem_walked_of_fieldPath hpath true)
      simpa [Grouping.outputStray, hpath, projectionReads, hread] using hne
    | none =>
      simp only [Grouping.outputStray, hpath, hconstant, hv, projectionReads]
      cases v.chooses? with
      | some b => cases b <;> rfl
      | none =>
        rw [Term.mem_exprReads true hv]
        exact or_iff_right hp

namespace Grouping

/-- The paths that the projection of the outputs reads and lowering has left as they are. -/
def strayPaths (g : Grouping) : List String := g.outputs.flatMap outputStray

section

variable {p : String} {outputs : Entries Term} {entries : Fields}

/-- The outputs keep their names in a projection. -/
theorem keys_projected (h : Forall₂ (fun o e => projectOutput o = .ok e) outputs entries) :
    entries.keys = outputs.keys := by
  induction h with
  | nil => rfl
  | @cons o e outputs entries he _ ih =>
    have hname : e.1 = o.1 := by
      rcases projectOutput_eq_ok he with ⟨-, rfl⟩ | ⟨v, -, rfl⟩ <;> rfl
    rw [Entries.keys_cons, Entries.keys_cons, ih, hname]

theorem mem_projected (h : Forall₂ (fun o e => projectOutput o = .ok e) outputs entries)
    (hp : ∀ output ∈ outputs, p ∉ output.2.walked true) :
    p ∈ entries.flatMap projectionReads ↔ p ∈ outputs.flatMap outputStray := by
  induction h with
  | nil => rfl
  | @cons o e outputs entries he _ ih =>
    simp only [flatMap_cons, mem_append]
    rw [mem_projectOutput (hp o mem_cons_self) he,
      ih fun output hout => hp output (mem_cons_of_mem _ hout)]

end

theorem mem_stageReads_project {p : String} {fields : Fields} :
    p ∈ stageReads (.field "$project" (.object fields)) ↔
      ∃ entry ∈ fields, p ∈ projectionReads entry := by
  simp [stageReads, Value.field]

/-- A path that lowering has not reached is read by the projection exactly if it is stray. -/
theorem mem_projectStage {p : String} {g : Grouping} (hnames : g.outputs.keys.Nodup)
    (hp : ∀ output ∈ g.outputs, p ∉ output.2.walked true) {stage : Value}
    (h : g.projectStage = .ok stage) : p ∈ stageReads stage ↔ p ∈ g.strayPaths := by
  obtain ⟨entries, hentries, rfl⟩ := Compiled.bind₁_eq_ok.mp h
  have hall := Compiled.forall₂_of_mapM hentries
  have hnodup : Entries.keys entries |>.Nodup := by
    rw [keys_projected hall]
    exact hnames
  rw [strayPaths, ← mem_projected hall hp, mem_stageReads_project, mem_flatMap]
  constructor
  · rintro ⟨entry, hentry, hread⟩
    rcases Entries.mem_insertAll hentry with hid | hentry
    · cases mem_singleton.mp hid
      cases hread
    · exact ⟨entry, hentry, hread⟩
  · rintro ⟨entry, hentry, hread⟩
    exact ⟨entry, Entries.mem_insertAll_of_mem hnodup hentry, hread⟩

end Grouping

end DocSql
