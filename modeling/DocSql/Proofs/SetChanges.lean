import Mathlib
import DocSql.Clause.Assignments
import DocSql.Proofs.ClauseReading
import DocSql.Proofs.FirstOccurrences

/-! # The changes that a SET list asks for

Every assignment of a SET list asks for one change of a field: a value to set, a number to add, or a
number to multiply by.  The changes are collected under the three operators of an update, where a
later change of a field takes the place of an earlier one under the same operator.  So the update has
as many fields as the list has assignments, each under one operator only, exactly if no two
assignments are to the same field (`document_keeps_all_iff`).
-/
namespace DocSql
open Compiled List

/-! ### Changes -/

/-- An operator of an update. -/
inductive ChangeOperator where
  | set | inc | mul
  deriving DecidableEq

/-- The name of an operator. -/
def ChangeOperator.name : ChangeOperator → String
  | .set => "$set"
  | .inc => "$inc"
  | .mul => "$mul"

/-- The fields that an update has under an operator. -/
def ChangeOperator.fieldsIn (op : ChangeOperator) (update : Value) : Fields :=
  ((update.get? op.name).bind Value.asObject?).getD []

/-- A change of a field: what an operator is given for it. -/
structure Change where
  operator : ChangeOperator
  operand : Value

/-- The change of a field by an operation with a number. -/
def Change.ofAmount (amount : Value) : Arithmetic → Change
  | .add => ⟨.inc, amount⟩
  | .sub => ⟨.inc, Assignments.negateNumber amount⟩
  | _ => ⟨.mul, amount⟩

namespace Assignments

variable {a a' : Assignments} {field : String} {t : Term} {r : Reading}

/-- The change that the assignment of a term to a field asks for. -/
def change? (field : String) (t : Term) : Option Change :=
  match t.constant?, t with
  | some value, _ => some ⟨.set, value⟩
  | none, .arith op left right => (amount? field op left right).map fun n => .ofAmount n op
  | none, _ => none

/-- The fields under an operator. -/
def fields (a : Assignments) : ChangeOperator → Fields
  | .set => a.set
  | .inc => a.inc
  | .mul => a.mul

/-- The assignments with one more change. -/
def add (a : Assignments) (field : String) (change : Change) : Assignments :=
  match change.operator with
  | .set => { a with set := a.set.insert field change.operand }
  | .inc => { a with inc := a.inc.insert field change.operand }
  | .mul => { a with mul := a.mul.insert field change.operand }

theorem fields_add (a : Assignments) (field : String) (change : Change) (op : ChangeOperator) :
    (a.add field change).fields op =
      if change.operator = op then (a.fields op).insert field change.operand else a.fields op := by
  obtain ⟨operator, operand⟩ := change
  cases operator <;> cases op <;> rfl

/-- An assignment is accepted exactly if it asks for a change, which is added then. -/
theorem assign_eq_ok : a.assign field t = .ok a' ↔
    ∃ change, change? field t = some change ∧ a' = a.add field change := by
  unfold assign change?
  cases hconstant : t.constant? with
  | some value =>
    simp only [Except.ok.injEq, Option.some.injEq, exists_eq_left']
    exact eq_comm
  | none =>
    cases t with
    | arith op left right =>
      cases hamount : amount? field op left right with
      | none => simp [hamount, unsupported]
      | some amount =>
        cases op <;> simp only [hamount, Option.map_some, Except.ok.injEq, Option.some.injEq,
          exists_eq_left'] <;> exact eq_comm
    | _ => simp [unsupported]

end Assignments

/-! ### Lists of assignments -/

/-- An assignment of a term to a column, and the change that it asks for. -/
structure Assignment where
  column : Column
  term : Term
  change : Change
  asks : Assignments.change? column.path term = some change

namespace Assignment

/-- The field that is assigned to. -/
def path (x : Assignment) : String := x.column.path

/-- The tokens between two commas write the assignment. -/
def WrittenBy (r : Reading) (piece : List Token) (x : Assignment) : Prop :=
  ∃ left right, piece = [.comparison left .eq right] ∧ r.resolve left = .ok (.column x.column) ∧
    r.resolve right = .ok x.term

/-- The fields and operands of the assignments that ask for a change by an operator. -/
def under (op : ChangeOperator) (xs : List Assignment) : List (String × Value) :=
  (xs.filter fun x => x.change.operator = op).map fun x => (x.path, x.change.operand)

end Assignment

open Assignment

/-- The tokens from one place to another are SET and a list of assignments. -/
def SetList (r : Reading) (c : TokenCursor) (xs : List Assignment) (after : TokenCursor) : Prop :=
  ∃ tokens, c.rest = .keyword .SET :: tokens ++ after.rest ∧ tokens ≠ [] ∧
    Forall₂ (WrittenBy { r with aliases := false }) (Token.splitCommas tokens) xs

namespace Assignments

variable {a a' : Assignments} {r : Reading} {xs : List Assignment} {op : ChangeOperator}

/-- The assignments with the changes of a list added one after the other. -/
def addAll (a : Assignments) (xs : List Assignment) : Assignments :=
  xs.foldl (fun a x => a.add x.path x.change) a

theorem fields_addAll (a : Assignments) (xs : List Assignment) (op : ChangeOperator) :
    (a.addAll xs).fields op = (a.fields op).insertAll (under op xs) := by
  induction xs generalizing a with
  | nil => rfl
  | cons x xs ih =>
    show ((a.add x.path x.change).addAll xs).fields op = _
    rw [ih, fields_add]
    by_cases hop : x.change.operator = op
    · rw [if_pos hop, under, under, filter_cons_of_pos (by simpa using hop)]
      rfl
    · rw [if_neg hop, under, under, filter_cons_of_neg (by simpa using hop)]

theorem readOne_eq_ok {piece : List Token} :
    readOne r a piece = .ok a' ↔ ∃ x, WrittenBy r piece x ∧ a' = a.add x.path x.change := by
  constructor
  · intro h
    unfold readOne at h
    split at h
    · rename_i left right
      obtain ⟨target, htarget, h⟩ := bind_eq_ok.mp h
      split at h
      · rename_i column
        obtain ⟨term, hterm, h⟩ := bind_eq_ok.mp h
        obtain ⟨change, hchange, rfl⟩ := assign_eq_ok.mp h
        exact ⟨⟨column, term, change, hchange⟩, ⟨left, right, rfl, htarget, hterm⟩, rfl⟩
      · cases h
    · cases h
  · rintro ⟨x, ⟨left, right, rfl, hcolumn, hterm⟩, rfl⟩
    simp only [readOne, hcolumn, hterm, ok_bind]
    exact assign_eq_ok.mpr ⟨x.change, x.asks, rfl⟩

theorem foldlM_readOne_eq_ok {pieces : List (List Token)} : pieces.foldlM (readOne r) a = .ok a' ↔
      ∃ xs, Forall₂ (WrittenBy r) pieces xs ∧ a' = a.addAll xs := by
  induction pieces generalizing a with
  | nil =>
    simp only [foldlM_nil, Compiled.pure_def, Except.ok.injEq, forall₂_nil_left_iff, exists_eq_left]
    exact eq_comm
  | cons piece pieces ih =>
    rw [foldlM_cons, bind_eq_ok]
    constructor
    · rintro ⟨b, hb, h⟩
      obtain ⟨x, hx, rfl⟩ := readOne_eq_ok.mp hb
      obtain ⟨xs, hxs, rfl⟩ := ih.mp h
      exact ⟨x :: xs, .cons hx hxs, rfl⟩
    · rintro ⟨xs, hxs, rfl⟩
      cases hxs with
      | @cons _ x _ xs hx hxs =>
        exact ⟨_, readOne_eq_ok.mpr ⟨x, hx, rfl⟩, ih.mpr ⟨xs, hxs, rfl⟩⟩

/-- An update has the fields that are collected. -/
theorem fieldsIn_document (a : Assignments) (op : ChangeOperator) :
    op.fieldsIn a.document = a.fields op := by
  obtain ⟨set, inc, mul, span⟩ := a
  cases set <;> cases inc <;> cases mul <;> cases op <;> rfl

/-- A SET clause that is read is a list of assignments, and under each operator its update has the
fields of the list, the last operand of each. -/
theorem read_eq_ok {c after : TokenCursor} (h : read r c = .ok (a, after)) :
    ∃ xs, SetList r c xs after ∧
      ∀ op : ChangeOperator, op.fieldsIn a.document = Entries.insertAll [] (under op xs) := by
  unfold read at h
  split at h
  · cases h
  · rename_i afterSet heat
    simp only at h
    split at h
    · cases h
    · rename_i htokens
      obtain ⟨b, hb, h⟩ := bind_eq_ok.mp h
      cases h
      obtain ⟨xs, hxs, rfl⟩ := foldlM_readOne_eq_ok.mp hb
      refine ⟨xs, ⟨_, TokenCursor.rest_eat_takeUntil heat, ?_, hxs⟩, fun op => ?_⟩
      · exact mt isEmpty_iff.mpr htokens
      · rw [fieldsIn_document, fields_addAll]
        cases op <;> rfl

end Assignments

/-! ### Fields that are assigned to twice -/

/-- Names stand in the order in which they are written first. -/
theorem Entries.keys_insertAll {α : Type} (es new : Entries α) :
    (es.insertAll new).keys = es.keys ++ newNames es.keys new.keys := by
  induction new generalizing es with
  | nil => exact (append_nil _).symm
  | cons e new ih =>
    show ((es.insert e.1 e.2).insertAll new).keys = _
    rw [ih, keys_insert, keys_cons]
    by_cases hkey : e.1 ∈ es.keys
    · rw [if_pos hkey, newNames_of_mem hkey]
    · rw [if_neg hkey, newNames_of_not_mem hkey, append_assoc]
      rfl

theorem Entries.length_keys {α : Type} (es : Entries α) : es.keys.length = es.length := length_map _

theorem Entries.length_insertAll_nil {α : Type} (new : Entries α) :
    (insertAll [] new).length = (newNames [] new.keys).length := by
  rw [← length_keys, keys_insertAll, keys_nil, nil_append]

theorem Entries.length_insertAll_nil_le {α : Type} (new : Entries α) :
    (insertAll [] new).length ≤ new.length := by
  rw [length_insertAll_nil, ← length_keys new]
  exact length_newNames_le

/-- All entries are kept exactly if no name is written twice. -/
theorem Entries.length_insertAll_nil_eq_iff {α : Type} {new : Entries α} :
    (insertAll [] new).length = new.length ↔ new.keys.Nodup := by
  rw [length_insertAll_nil, ← length_keys new]
  exact length_newNames_eq_iff.trans (and_iff_left fun _ _ => not_mem_nil)

namespace Assignment

variable {xs : List Assignment} {op : ChangeOperator} {path : String}

theorem keys_under (op : ChangeOperator) (xs : List Assignment) :
    Entries.keys (under op xs) = (xs.filter fun x => x.change.operator = op).map Assignment.path := by
  rw [Entries.keys, under, map_map]
  rfl

theorem mem_keys_under : path ∈ Entries.keys (under op xs) ↔
    ∃ x ∈ xs, x.change.operator = op ∧ x.path = path := by
  simp [keys_under, and_assoc]

/-- Every assignment is under one operator. -/
theorem length_under (xs : List Assignment) :
    (under .set xs).length + (under .inc xs).length + (under .mul xs).length = xs.length := by
  simp only [under, length_map]
  induction xs with
  | nil => rfl
  | cons x xs ih =>
    simp only [filter_cons, length_cons, ← ih]
    cases x.change.operator <;> simp only [reduceCtorEq, decide_true, decide_false,
      Bool.false_eq_true, if_true, if_false, length_cons] <;> omega

/-- No field is assigned to twice exactly if this holds under each operator and no field is under
two. -/
theorem nodup_paths_iff : (xs.map Assignment.path).Nodup ↔
    (∀ op, (Entries.keys (under op xs)).Nodup) ∧
      ∀ x ∈ xs, ∀ y ∈ xs, x.path = y.path → x.change.operator = y.change.operator := by
  constructor
  · intro hnodup
    refine ⟨fun op => ?_, fun x hx y hy hpath => ?_⟩
    · rw [keys_under]
      exact (filter_sublist.map _).nodup hnodup
    · rw [inj_on_of_nodup_map hnodup hx hy hpath]
  · rintro ⟨hunder, halone⟩
    simp only [keys_under] at hunder
    induction xs with
    | nil => exact nodup_nil
    | cons x xs ih =>
      have hlater (op : ChangeOperator) :
          ((xs.filter fun x => x.change.operator = op).map Assignment.path).Nodup :=
        (((sublist_cons_self x xs).filter _).map _).nodup (hunder op)
      refine nodup_cons.mpr ⟨fun hmem => ?_, ih (fun y hy z hz =>
        halone y (mem_cons_of_mem _ hy) z (mem_cons_of_mem _ hz)) hlater⟩
      -- a later assignment to the same field is under the same operator
      obtain ⟨y, hy, hpath⟩ := mem_map.mp hmem
      have hop := halone y (mem_cons_of_mem _ hy) x mem_cons_self hpath
      have hfirst := hunder x.change.operator
      rw [filter_cons_of_pos (by simp), map_cons, nodup_cons] at hfirst
      exact hfirst.1 (hpath ▸ mem_map_of_mem (mem_filter.mpr ⟨hy, by simpa using hop⟩))

end Assignment

/-- An update has a given number of fields, none of them under two operators. -/
structure KeepsAll (update : Value) (count : Nat) : Prop where
  apart : ∀ (op op' : ChangeOperator) (path : String), path ∈ (op.fieldsIn update).keys →
    path ∈ (op'.fieldsIn update).keys → op = op'
  all : (ChangeOperator.set.fieldsIn update).length + (ChangeOperator.inc.fieldsIn update).length +
    (ChangeOperator.mul.fieldsIn update).length = count

namespace Assignments

variable {a : Assignments} {r : Reading} {c after : TokenCursor}

/-- A SET clause that is read is a list of assignments.  Under each operator its update has the fields
of the list, where a later operand takes the place of an earlier one; and it has a field for each
assignment, under one operator only, exactly if no two assignments are to the same field. -/
theorem document_keeps_all_iff (h : read r c = .ok (a, after)) :
    ∃ xs, SetList r c xs after ∧
      (∀ op : ChangeOperator, op.fieldsIn a.document = Entries.insertAll [] (under op xs)) ∧
      (KeepsAll a.document xs.length ↔ (xs.map Assignment.path).Nodup) := by
  obtain ⟨xs, hlist, hfields⟩ := read_eq_ok h
  have hmem (op : ChangeOperator) (path : String) : path ∈ (op.fieldsIn a.document).keys ↔
      ∃ x ∈ xs, x.change.operator = op ∧ x.path = path := by
    rw [hfields, Entries.keys_insertAll, Entries.keys_nil, List.nil_append, mem_newNames,
      mem_keys_under]
    exact and_iff_left List.not_mem_nil
  refine ⟨xs, hlist, hfields, fun hkeeps => nodup_paths_iff.mpr ⟨fun op => ?_, ?_⟩, fun hnodup => ?_⟩
  · have hsum := hkeeps.all
    have hlength := length_under xs
    have hset := Entries.length_insertAll_nil_le (under .set xs)
    have hinc := Entries.length_insertAll_nil_le (under .inc xs)
    have hmul := Entries.length_insertAll_nil_le (under .mul xs)
    simp only [hfields] at hsum
    refine Entries.length_insertAll_nil_eq_iff.mp ?_
    cases op <;> omega
  · intro x hx y hy hpath
    exact hkeeps.apart _ _ x.path ((hmem _ _).mpr ⟨x, hx, rfl, rfl⟩)
      ((hmem _ _).mpr ⟨y, hy, rfl, hpath.symm⟩)
  · obtain ⟨hunder, halone⟩ := nodup_paths_iff.mp hnodup
    refine ⟨fun op op' path hop hop' => ?_, ?_⟩
    · obtain ⟨x, hx, rfl, rfl⟩ := (hmem _ _).mp hop
      obtain ⟨y, hy, rfl, hpath⟩ := (hmem _ _).mp hop'
      exact halone x hx y hy hpath.symm
    · simp only [hfields, Entries.length_insertAll_nil_eq_iff.mpr (hunder _), length_under]

namespace Sample

/-- A reading of the columns of a table, without parameters. -/
def reading : Reading := Scope.reading (Scope.setLeftTable { params := [] } "t" "t") false []

/-- The tokens of a SET list that assigns to one field twice. -/
def twice : TokenCursor where
  tokens := [.keyword .SET, .comparison (.name none "a") .eq (.literal (.int 1)), .punctuation ',',
    .comparison (.name none "a") .eq (.literal (.int 2))]

/-- The assignment that is left of them. -/
def last : Assignments where
  set := [("a", .int 2)]
  span := ⟨0, 4⟩

theorem twice_read : read reading twice = .ok (last, { twice with position := 4 }) ∧
    ∃ xs, SetList reading twice xs { twice with position := 4 } ∧
      (∀ op : ChangeOperator, op.fieldsIn last.document = Entries.insertAll [] (under op xs)) ∧
      (KeepsAll last.document xs.length ↔ (xs.map Assignment.path).Nodup) := by
  have hread : read reading twice = .ok (last, { twice with position := 4 }) := by cbv
  exact ⟨hread, document_keeps_all_iff hread⟩

end Sample

end Assignments

end DocSql
