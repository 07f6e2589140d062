import DocSql.Proofs.ClauseTiling
import DocSql.Proofs.PathWriting

/-! # The rows of DISTINCT

DISTINCT groups by a document that holds an expression for each item of the SELECT list, at the path
that is the name of the item.  Names are different, but as paths one can lead on from another: the
items `x` and `x.y` both want to be the field `x`.  Then the item that is written later replaces the
other one, or becomes a part of it.  The statement at the end says of which lists that is not so.
-/
namespace DocSql
open Compiled
namespace Select

/-- The expression of an item in a row: the output of the grouping under its name or, without a
grouping, the expression of its term. -/
def rowValue (q : Select) (item : SelectItem) : Compiled Value :=
  if q.grouping.isSome then .ok (.path item.name) else item.term.expression

/-- The row has the expression of the item at the path that is its name. -/
def Keeps (q : Select) (d : Distinct) (item : SelectItem) : Prop :=
  ∃ value, q.rowValue item = .ok value ∧ (Value.object d.row).lookup item.name = some value

/-- The rows of DISTINCT are made of the names and the expressions of the items. -/
structure Describes (q : Select) (d : Distinct) : Prop where
  nodup : (d.shape.map (·.1)).Nodup
  entry : ∀ item ∈ q.columns.items, ∃ value,
    q.rowValue item = .ok value ∧ (item.name, value) ∈ d.shape
  item : ∀ e ∈ d.shape, ∃ item ∈ q.columns.items, item.name = e.1 ∧ q.rowValue item = .ok e.2

variable {subselect : List Token → Compiled Subselect} {scope : Scope} {tokens : List Token}
variable {q : Select} {d : Distinct}

/-! ### Reading DISTINCT -/

namespace Course

theorem ofColumns_of_distinct (course : Course subselect scope tokens q)
    (hd : q.distinct = some d) :
    Distinct.ofColumns { course.columns with materialized := q.grouping.isSome }
      course.start.position = .ok d := by
  have hgrouped : q.grouping.isSome = course.grouped.isSome := by
    have hplace := (place_resolveSorting course.resolved_eq).2
    simpa using congrArg Option.isSome hplace
  have hrows := course.rows_eq
  rw [hd, ← hgrouped] at hrows
  split at hrows
  · obtain ⟨rows, hrows, heq⟩ := map_eq_ok.mp hrows
    cases heq
    exact hrows
  · cases hrows

theorem describes (course : Course subselect scope tokens q) (hd : q.distinct = some d) :
    q.Describes d := by
  have hitems : q.columns.items = course.columns.items := by rw [course.items_eq]
  obtain ⟨shape, hshape, hd⟩ := bind_eq_ok.mp (course.ofColumns_of_distinct hd)
  cases hd
  have hentry {item : SelectItem} {e : String × Value}
      (h : Distinct.itemValue { course.columns with materialized := q.grouping.isSome } item =
        .ok e) : item.name = e.1 ∧ q.rowValue item = .ok e.2 := by
    obtain ⟨value, hvalue, h⟩ := ite_bind_eq_ok.mp h
    cases h
    exact ⟨rfl, hvalue⟩
  refine { nodup := ?_, entry := ?_, item := ?_ }
  · have hnames : shape.map (·.1) = course.columns.names :=
      map_eq_of_mapM hshape fun item e he => (hentry he).1.symm
    rw [hnames]
    exact Columns.read_names course.columns_eq
  · intro item hitem
    obtain ⟨e, he, hvalue⟩ := exists_result_of_mapM hshape item (hitems ▸ hitem)
    obtain ⟨hname, hvalue⟩ := hentry hvalue
    exact ⟨e.2, hvalue, by rw [hname]; exact he⟩
  · intro e he
    obtain ⟨item, hitem, hvalue⟩ := exists_of_mapM hshape e he
    exact ⟨item, hitems ▸ hitem, hentry hvalue⟩

end Course

/-! ### Reading rows back -/

namespace Describes

/-- An item is kept exactly if its expression is read along the segments of its name. -/
theorem keeps_iff {item : SelectItem} {value : Value} (hvalue : q.rowValue item = .ok value) :
    q.Keeps d item ↔ Value.walk (segments item.name) (.object d.row) = some value := by
  have hlookup : (Value.object d.row).lookup item.name =
      Value.walk (segments item.name) (.object d.row) := Fields.lookup_insertPaths d.shape item.name
  rw [Keeps, hlookup]
  constructor
  · rintro ⟨other, hother, hwalk⟩
    cases hother.symm.trans hvalue
    exact hwalk
  · exact fun hwalk => ⟨value, hvalue, hwalk⟩

/-- All items are kept exactly if their expressions agree wherever their names meet. -/
theorem keeps_all_iff (h : q.Describes d) :
    (∀ item ∈ q.columns.items, q.Keeps d item) ↔ Coherent d.shape := by
  constructor
  · intro hkeeps
    refine Fields.coherent_of_walk (.object d.row) fun e he => ?_
    obtain ⟨item, hitem, hname, hvalue⟩ := h.item e he
    rw [← hname]
    exact (keeps_iff hvalue).mp (hkeeps item hitem)
  · intro hcoherent item hitem
    obtain ⟨value, hvalue, hmem⟩ := h.entry item hitem
    exact (keeps_iff hvalue).mpr (Fields.walk_insertPaths h.nodup hcoherent [] _ hmem)

/-- The expressions agree wherever the names of the items meet. -/
theorem coherent_iff (h : q.Describes d) :
    Coherent d.shape ↔ ∀ item ∈ q.columns.items, ∀ other ∈ q.columns.items, ∀ rest,
      LeadsOn item.name other.name rest → ∃ value inner, q.rowValue item = .ok value ∧
        q.rowValue other = .ok inner ∧ value.walk rest = some inner := by
  constructor
  · intro hcoherent item hitem other hother rest hrest
    obtain ⟨value, hvalue, hmem⟩ := h.entry item hitem
    obtain ⟨inner, hinner, hmem'⟩ := h.entry other hother
    exact ⟨value, inner, hvalue, hinner, hcoherent _ hmem _ hmem' rest hrest⟩
  · intro hagree e he e' he' rest hrest
    obtain ⟨item, hitem, hname, hvalue⟩ := h.item e he
    obtain ⟨other, hother, hname', hvalue'⟩ := h.item e' he'
    rw [← hname, ← hname'] at hrest
    obtain ⟨value, inner, hv, hi, hwalk⟩ := hagree item hitem other hother rest hrest
    cases hv.symm.trans hvalue
    cases hi.symm.trans hvalue'
    exact hwalk

/-- An item is kept if its name parts from those of all others. -/
theorem keeps_of_apart (h : q.Describes d) {item : SelectItem} (hitem : item ∈ q.columns.items)
    (hapart : ∀ other ∈ q.columns.items, other.name ≠ item.name → Apart item.name other.name) :
    q.Keeps d item := by
  obtain ⟨value, hvalue, hmem⟩ := h.entry item hitem
  refine (keeps_iff hvalue).mpr (Fields.walk_insertPaths_of_apart h.nodup hmem ?_ [])
  intro e he hne
  obtain ⟨other, hother, hname, -⟩ := h.item e he
  rw [← hname] at hne ⊢
  exact hapart other hother hne

end Describes

/-- **What a row of DISTINCT keeps.**  Take a query with DISTINCT that is accepted, the outer one
or a sub-select.  It groups by the row, and every item has an expression.  The row has the
expression of each item at the path that is its name exactly if, wherever the name of an item leads
on from that of another, the expression of the other already holds its own there.  An item whose
name parts from all others is kept in any case. -/
theorem distinct_keeps_iff (hq : Select.read subselect scope tokens = .ok q)
    (hd : q.distinct = some d) :
    Clause.stages d = .ok [.field "$group" (.field "_id" (.object d.row)),
      .field "$replaceRoot" (.field "newRoot" (.path "_id"))] ∧
    (∀ item ∈ q.columns.items, ∃ value, q.rowValue item = .ok value) ∧
    ((∀ item ∈ q.columns.items, q.Keeps d item) ↔
      ∀ item ∈ q.columns.items, ∀ other ∈ q.columns.items, ∀ rest,
        LeadsOn item.name other.name rest → ∃ value inner, q.rowValue item = .ok value ∧
          q.rowValue other = .ok inner ∧ value.walk rest = some inner) ∧
    ∀ item ∈ q.columns.items,
      (∀ other ∈ q.columns.items, other.name ≠ item.name → Apart item.name other.name) →
        q.Keeps d item := by
  obtain ⟨course⟩ := course_of_read hq
  have hrow := course.describes hd
  refine ⟨rfl, fun item hitem => ?_, hrow.keeps_all_iff.trans hrow.coherent_iff,
    fun item hitem => hrow.keeps_of_apart hitem⟩
  obtain ⟨value, hvalue, -⟩ := hrow.entry item hitem
  exact ⟨value, hvalue⟩

end Select

/-! ### Names that meet

Two columns have the aliases `x` and `x.y`, and a third one parts from both. -/

namespace Distinct.Sample

def tokens : List Token :=
  [.keyword .SELECT, .keyword .DISTINCT, .aliased (.name none "a") "x", .punctuation ',',
    .aliased (.name none "b") "x.y", .punctuation ',', .name none "c",
    .keyword .FROM, .name none "t"]

def rows : Distinct where
  shape := [("x", .path "a"), ("x.y", .path "b"), ("c", .path "c")]
  span := ⟨1, 2⟩

def upper : SelectItem := ⟨.column ⟨"t", "a", "a"⟩, "x", some "x"⟩
def lower : SelectItem := ⟨.column ⟨"t", "b", "b"⟩, "x.y", some "x.y"⟩
def other : SelectItem := ⟨.column ⟨"t", "c", "c"⟩, "c", none⟩

def query : Select where
  source := ⟨⟨"t", "t"⟩, ⟨7, 9⟩⟩
  joins := []
  nested := []
  columns := { items := [upper, lower, other], materialized := true, span := ⟨2, 7⟩ }
  filter := none
  grouping := none
  having := none
  distinct := some rows
  sorting := none
  window := none
  shape := .documents ["x", "x.y", "c"] none

set_option maxRecDepth 8000 in
theorem compiles : Select.compile [] tokens = .ok query := by with_unfolding_all rfl

theorem upper_leadsOn : LeadsOn upper.name lower.name ["y"] := ⟨List.cons_ne_nil _ _, by decide⟩

theorem other_apart : ∀ item ∈ query.columns.items, item.name ≠ other.name →
    Apart other.name item.name := by
  intro item hitem hne
  simp only [query, List.mem_cons, List.not_mem_nil, or_false] at hitem
  rcases hitem with rfl | rfl | rfl
  · exact ⟨by decide, by decide⟩
  · exact ⟨by decide, by decide⟩
  · exact absurd rfl hne

/-- The first column is lost in the row, and the third one is kept. -/
theorem rows_lose_item :
    Select.compile [] tokens = .ok query ∧ query.distinct = some rows ∧
      ¬ (∀ item ∈ query.columns.items, query.Keeps rows item) ∧ query.Keeps rows other := by
  have hread : Select.read (Select.subselectWithin [] (Token.depthAll tokens)) { params := [] }
      tokens = .ok query := compiles
  obtain ⟨-, -, hkeeps, hapart⟩ := Select.distinct_keeps_iff hread rfl
  refine ⟨compiles, rfl, fun hall => ?_, hapart other ?_ other_apart⟩
  · obtain ⟨value, inner, hvalue, -, hwalk⟩ := hkeeps.mp hall upper List.mem_cons_self lower
      (List.mem_cons_of_mem _ List.mem_cons_self) ["y"] upper_leadsOn
    cases hvalue
    cases hwalk
  · exact List.mem_cons_of_mem _ (List.mem_cons_of_mem _ List.mem_cons_self)

end Distinct.Sample
end DocSql
