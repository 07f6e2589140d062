import DocSql.Proofs.ClauseReading
import DocSql.Proofs.ReadingTraits
import Mathlib.Computability.Language

/-! # The order of stages

A pipeline has its stages in a fixed order, and its last stage leaves what the rows are read from.
The order is a language over the names of stages, put together from those of the clauses.  A stage
that looks a sub-select up embeds a pipeline, which is the pipeline of a query again, so that the
statement about a query is a recursive one.
-/
namespace DocSql
open Compiled List

/-- The name of a stage. -/
def Value.operator : Value → String
  | .object [(name, _)] => name
  | _ => ""

/-- The pipeline that a stage embeds. -/
def Value.embedded? : Value → Option (List Value)
  | .object [(name, .object fields)] =>
    if name = "$lookup" then (Entries.get? fields "pipeline").bind Value.asArray? else none
  | _ => none

namespace Stages

/-- One stage. -/
def one (name : String) : Language String := {[name]}

/-- Stages that may be absent. -/
def optional (stages : Language String) : Language String := 1 + stages

/-- The stages of a join, inner or outer. -/
def join : Language String :=
  one "$match" * one "$lookup" * one "$unwind" + one "$lookup" * one "$unwind" * one "$addFields"

/-- The stages of a sub-select. -/
def nested : Language String := one "$lookup" * one "$addFields"

/-- The stages of a grouping. -/
def grouping : Language String := one "$group" * optional (one "$addFields") * one "$project"

/-- The stages of DISTINCT. -/
def distinct : Language String := one "$group" * one "$replaceRoot"

/-- The stages of an order. -/
def sorting : Language String := optional (one "$addFields") * one "$sort"

/-- The stages of LIMIT and OFFSET. -/
def window : Language String := optional (one "$skip") * optional (one "$limit")

/-- The stages before the last one. -/
def body (joins subselects : Nat) : Language String :=
  join ^ joins * nested ^ subselects * optional (one "$match") * optional grouping *
    optional (one "$match") * optional distinct * optional sorting * window

/-- The stages of a query with the given numbers of joins and sub-selects. -/
def order (joins subselects : Nat) : Language String :=
  body joins subselects * (one "$project" + one "$count")

end Stages

/-! ### Stages that fit -/

/-- The stages have their names in a language and embed the given pipelines, in this order. -/
structure Fits (names : Language String) (embedded : List (List Value)) (stages : List Value) :
    Prop where
  names : stages.map Value.operator ∈ names
  embedded : stages.filterMap Value.embedded? = embedded

namespace Fits

open Stages

variable {l l' : Language String} {e e' : List (List Value)} {stages stages' : List Value}

theorem append (h : Fits l e stages) (h' : Fits l' e' stages') :
    Fits (l * l') (e ++ e') (stages ++ stages') where
  names := by
    rw [map_append]
    exact Language.append_mem_mul h.names h'.names
  embedded := by rw [filterMap_append, h.embedded, h'.embedded]

theorem nil : Fits 1 [] [] := ⟨Language.nil_mem_one, rfl⟩

theorem inl (h : Fits l e stages) : Fits (l + l') e stages := ⟨Or.inl h.names, h.embedded⟩

theorem inr (h : Fits l' e stages) : Fits (l + l') e stages := ⟨Or.inr h.names, h.embedded⟩

/-- A stage other than a look-up embeds nothing. -/
theorem single (name : String) (value : Value) (h : name ≠ "$lookup") :
    Fits (one name) [] [.field name value] := by
  refine ⟨rfl, ?_⟩
  cases value <;> simp [Value.field, Value.embedded?, h]

/-- A block of stages for each member of a list. -/
theorem flatMap {α : Type} {f : α → List Value} {e : α → List (List Value)}
    (h : ∀ a, Fits l (e a) (f a)) : ∀ as : List α,
    Fits (l ^ as.length) (as.flatMap e) (as.flatMap f)
  | [] => by simpa using nil
  | a :: as => by
    simp only [length_cons, pow_succ', flatMap_cons]
    exact (h a).append (flatMap h as)

theorem stagesOf {α : Type} [Clause α] {clause : Option α}
    (h : Clause.stagesOf clause = .ok stages)
    (hclause : ∀ c : α, Clause.stages c = .ok stages → Fits l [] stages) :
    Fits (optional l) [] stages := by
  cases clause with
  | none =>
    cases h
    exact nil.inl
  | some c => exact (hclause c h).inr

end Fits

/-! ### Clauses -/

section

open Stages

theorem Join.fits (join : Join) : Fits Stages.join [] join.stages := by
  have hlookup : Fits (one "$lookup") [] [join.lookupStage] := by
    refine ⟨rfl, ?_⟩
    simp [Join.lookupStage, Value.field, Value.embedded?, Entries.get?_cons]
  unfold Join.stages
  cases join.kind with
  | inner =>
    exact Fits.inl (((Fits.single "$match" _ (by decide)).append hlookup).append
      (Fits.single "$unwind" _ (by decide)))
  | outer =>
    exact Fits.inr ((hlookup.append (Fits.single "$unwind" _ (by decide))).append
      (Fits.single "$addFields" _ (by decide)))

theorem NestedList.fits (n : NestedList) : Fits Stages.nested [n.subselect.pipeline] n.stages := by
  have hlookup : Fits (one "$lookup") [n.subselect.pipeline] [n.stages.head nofun] := by
    refine ⟨rfl, ?_⟩
    simp [NestedList.stages, Value.field, Value.embedded?, Entries.get?_cons, Value.asArray?]
  exact hlookup.append (Fits.single "$addFields" _ (by decide))

variable {stages : List Value}

theorem Filter.fits (filter : Filter) (h : Clause.stages filter = .ok stages) :
    Fits (one "$match") [] stages := by
  obtain ⟨test, -, rfl⟩ := bind₁_eq_ok.mp h
  exact .single "$match" _ (by decide)

theorem Having.fits (having : Having) (h : Clause.stages having = .ok stages) :
    Fits (one "$match") [] stages := by
  obtain ⟨test, -, rfl⟩ := bind₁_eq_ok.mp h
  exact .single "$match" _ (by decide)

theorem Grouping.fits (g : Grouping) (h : Clause.stages g = .ok stages) :
    Fits Stages.grouping [] stages := by
  obtain ⟨group, hgroup, project, hproject, rfl⟩ := bind₂_eq_ok.mp h
  obtain ⟨key, -, rfl⟩ := bind₁_eq_ok.mp hgroup
  obtain ⟨outputs, -, hproject⟩ := bind_eq_ok.mp hproject
  cases hproject
  have hfinal : Fits (optional (one "$addFields")) [] g.finalStages := by
    unfold finalStages
    split
    · exact Fits.nil.inl
    · exact (Fits.single "$addFields" _ (by decide)).inr
  exact ((Fits.single "$group" _ (by decide)).append hfinal).append
    (Fits.single "$project" _ (by decide))

theorem Distinct.fits (d : Distinct) (h : Clause.stages d = .ok stages) :
    Fits Stages.distinct [] stages := by
  cases h
  exact (Fits.single "$group" _ (by decide)).append (Fits.single "$replaceRoot" _ (by decide))

theorem Sorting.fits (sorting : Sorting) (h : Clause.stages sorting = .ok stages) :
    Fits Stages.sorting [] stages := by
  cases h
  refine Fits.append (e := []) ?_ (Fits.single "$sort" _ (by decide))
  split
  · exact (Fits.single "$addFields" _ (by decide)).inr
  · exact Fits.nil.inl

theorem Window.fits {window : Option Window} (h : Clause.stagesOf window = .ok stages) :
    Fits Stages.window [] stages := by
  cases window with
  | none =>
    cases h
    exact Fits.nil.inl.append Fits.nil.inl
  | some w =>
    cases h
    refine Fits.append (e := []) ?_ ?_
    · cases w.offset with
      | none => exact Fits.nil.inl
      | some n => exact (Fits.single "$skip" _ (by decide)).inr
    · cases w.limit with
      | none => exact Fits.nil.inl
      | some n => exact (Fits.single "$limit" _ (by decide)).inr

end

namespace Select

/-- The last stage leaves what the rows are read from: the columns of the row shape, which are the
names of the SELECT items and pairwise different, or the number of documents. -/
def EndsIn (q : Select) (stages : List Value) : Prop :=
  match q.shape with
  | .documents columns _ =>
    columns = q.columns.items.map (·.name) ∧ columns.Nodup ∧ ∃ fields : Fields,
      stages.getLast? = some (.field "$project" (.object fields)) ∧ fields.keys = columns
  | .count | .constant _ => ∃ name, stages.getLast? = some (.field "$count" name)

/-- A query and its pipeline: the stages are in order, as many as the clauses ask for, and the last
one leaves what the rows are read from.  The pipelines that stages embed are those of the sub-selects,
each of which is the pipeline of a query with one column, of which the same holds. -/
inductive Staged : Select → List Value → Prop
  | intro {q : Select} {stages : List Value} (inner : NestedList → Select)
    (rendered : q.pipeline = .ok stages)
    (order : stages.map Value.operator ∈ Stages.order q.joins.length q.nested.length)
    (last : q.EndsIn stages)
    (embedded : stages.filterMap Value.embedded? = q.nested.map (·.subselect.pipeline))
    (column : ∀ n ∈ q.nested, ∃ emptyRow, (inner n).shape = .documents [n.subselect.field] emptyRow)
    (deeper : ∀ n ∈ q.nested, Staged (inner n) n.subselect.pipeline) : Staged q stages

variable {q : Select} {stages : List Value}

/-- The pipeline is what the last clause leaves behind the stages of the others. -/
theorem exists_of_pipeline (h : q.pipeline = .ok stages) :
    ∃ before last, stages = before ++ last ∧ q.lastStages = .ok last ∧
      Fits (Stages.body q.joins.length q.nested.length) (q.nested.map (·.subselect.pipeline))
        before := by
  obtain ⟨parts, rfl⟩ := parts_of_pipeline h
  refine ⟨_, parts.last, rfl, parts.last_eq, ?_⟩
  have htables := (Fits.flatMap Join.fits q.joins).append (Fits.flatMap NestedList.fits q.nested)
  have hgroups := ((htables.append (.stagesOf parts.filter_eq Filter.fits)).append
    (.stagesOf parts.grouping_eq Grouping.fits)).append (.stagesOf parts.having_eq Having.fits)
  have hfits := ((hgroups.append (.stagesOf parts.distinct_eq Distinct.fits)).append
    (.stagesOf parts.sorting_eq Sorting.fits)).append (Window.fits parts.window_eq)
  have hjoins : q.joins.flatMap (fun _ => ([] : List (List Value))) = [] :=
    flatMap_eq_nil_iff.mpr fun _ _ => rfl
  simpa [Stages.body, hjoins, map_eq_flatMap] using hfits

/-- A projection has a field for each item. -/
theorem keys_mapM_project {columns : Columns} {items : List SelectItem} {fields : Fields}
    (h : items.mapM columns.project = .ok fields) : fields.keys = items.map (·.name) := by
  refine map_eq_of_mapM h fun item field hitem => ?_
  obtain ⟨value, -, hitem⟩ := ite_bind_eq_ok.mp hitem
  cases hitem
  rfl

/-- The last stage is a projection to the names of the items, or a count. -/
theorem lastStages_eq_ok {last : List Value} (h : q.lastStages = .ok last) :
    (q.shape.isDocuments = true ∧ ∃ fields : Fields,
      last = [.field "$project" (.object fields)] ∧ fields.keys = q.columns.names) ∨
    (q.shape.isDocuments = false ∧ ∃ name, last = [.field "$count" name]) := by
  unfold lastStages at h
  split at h
  · rename_i hshape
    obtain ⟨fields, hfields, h⟩ := bind_eq_ok.mp h
    exact .inl ⟨hshape, fields, (Except.ok.inj h).symm, keys_mapM_project hfields⟩
  · rename_i hshape
    exact .inr ⟨Bool.eq_false_of_not_eq_true hshape, _, (Except.ok.inj h).symm⟩

theorem fits_pipeline (h : q.pipeline = .ok stages) :
    Fits (Stages.order q.joins.length q.nested.length) (q.nested.map (·.subselect.pipeline))
      stages := by
  obtain ⟨before, last, rfl, hlast, hbefore⟩ := exists_of_pipeline h
  rw [← append_nil (q.nested.map _)]
  refine hbefore.append ?_
  rcases lastStages_eq_ok hlast with ⟨-, fields, rfl, -⟩ | ⟨-, name, rfl⟩
  · exact (Fits.single "$project" _ (by decide)).inl
  · exact (Fits.single "$count" _ (by decide)).inr

namespace Course

variable {subselect : List Token → Compiled Subselect} {scope : Scope} {tokens : List Token}

/-- The rows are read from the fields that the items have. -/
theorem columns_of_documents (course : Course subselect scope tokens q) {columns : List String}
    {emptyRow : Option (List Value)} (h : q.shape = .documents columns emptyRow) :
    columns = q.columns.names ∧ columns.Nodup := by
  have hnames : q.columns.names = course.columns.names := by
    rw [course.items_eq]
    rfl
  have hcolumns : columns = q.columns.names := by
    have hshape := course.shape_eq.symm.trans h
    split at hshape
    · cases hshape
    · split at hshape
      · cases hshape
      · exact (RowShape.documents.inj hshape).1.symm
  refine ⟨hcolumns, ?_⟩
  rw [hcolumns, hnames]
  exact Columns.read_names course.columns_eq

theorem endsIn (course : Course subselect scope tokens q) (h : q.pipeline = .ok stages) :
    q.EndsIn stages := by
  obtain ⟨before, last, rfl, hlast, -⟩ := exists_of_pipeline h
  unfold EndsIn
  rcases lastStages_eq_ok hlast with ⟨hshape, fields, rfl, hkeys⟩ | ⟨hshape, name, rfl⟩
  · cases hq : q.shape with
    | documents columns emptyRow =>
      obtain ⟨hcolumns, hnodup⟩ := course.columns_of_documents hq
      exact ⟨hcolumns, hnodup, fields, getLast?_concat, hkeys.trans hcolumns.symm⟩
    | count | constant values =>
      rw [hq] at hshape
      cases hshape
  · cases hq : q.shape with
    | documents columns emptyRow =>
      rw [hq] at hshape
      cases hshape
    | count | constant values => exact ⟨name, getLast?_concat⟩

end Course

/-! ### Sub-selects -/

/-- The sub-select is a query with one column. -/
def IsSubselect (s : Subselect) (q : Select) : Prop :=
  (∃ emptyRow, q.shape = .documents [s.field] emptyRow) ∧ q.Staged s.pipeline

variable {subselect : List Token → Compiled Subselect} {scope : Scope} {tokens : List Token}

theorem Course.compiles_nested (course : Course subselect scope tokens q)
    (hscope : scope.nested = []) : ∀ n ∈ q.nested, ∃ inner, subselect inner = .ok n.subselect := by
  rw [course.nested_eq]
  refine Filter.compiles_nested course.filter_eq ?_
  rw [course.nested_before, hscope]
  nofun

/-- A query is staged if the sub-selects in it are queries with one column that are. -/
theorem staged_of_read (hscope : scope.nested = [])
    (hsubselect : ∀ inner s, subselect inner = .ok s → ∃ q, IsSubselect s q)
    (hread : Select.read subselect scope tokens = .ok q) (h : q.pipeline = .ok stages) :
    q.Staged stages := by
  obtain ⟨course⟩ := course_of_read hread
  have hinner : ∀ n : NestedList, ∃ inner, n ∈ q.nested → IsSubselect n.subselect inner := by
    intro n
    by_cases hn : n ∈ q.nested
    · obtain ⟨tokens', hcompiles⟩ := course.compiles_nested hscope n hn
      obtain ⟨inner, hinner⟩ := hsubselect tokens' n.subselect hcompiles
      exact ⟨inner, fun _ => hinner⟩
    · exact ⟨q, fun hmem => absurd hmem hn⟩
  choose inner hinner using hinner
  have hfits := fits_pipeline h
  exact .intro inner h hfits.names (course.endsIn h) hfits.embedded (fun n hn => (hinner n hn).1)
    fun n hn => (hinner n hn).2

theorem shape_of_toSubselect {s : Subselect} (course : Course subselect scope tokens q)
    (h : q.toSubselect = .ok s) :
    (∃ emptyRow, q.shape = .documents [s.field] emptyRow) ∧ q.pipeline = .ok s.pipeline := by
  unfold toSubselect at h
  split at h
  · rename_i item hitem
    split at h
    · rename_i hshape
      obtain ⟨stages, hstages, rfl⟩ := bind₁_eq_ok.mp h
      refine ⟨?_, hstages⟩
      cases hq : q.shape with
      | documents columns emptyRow =>
        have hcolumns := (course.columns_of_documents hq).1
        rw [hcolumns, Columns.names, hitem]
        exact ⟨emptyRow, rfl⟩
      | count | constant values =>
        rw [hq] at hshape
        cases hshape
    · cases h
  · cases h

/-- A compiled sub-select is a query with one column, whatever the depth it is compiled at. -/
theorem isSubselect_of_subselectWithin {params : List Value} : ∀ (fuel : Nat)
    (tokens : List Token) (s : Subselect), subselectWithin params fuel tokens = .ok s →
    ∃ q, IsSubselect s q
  | 0, _, _, h => nomatch h
  | fuel + 1, tokens, s, h => by
    obtain ⟨q, hread, h⟩ := bind_eq_ok.mp h
    obtain ⟨course⟩ := course_of_read hread
    obtain ⟨hshape, hpipeline⟩ := shape_of_toSubselect course h
    exact ⟨q, hshape, staged_of_read rfl (isSubselect_of_subselectWithin fuel) hread hpipeline⟩

/-- **Stages are in order, and rows are aligned with the last one.**  The stages of every query that
is accepted have the order of the language, with as many blocks as there are joins and sub-selects.
The last one is a count where the rows are not read from documents, and else a projection to the
columns of the rows, one for each item.  The same holds of every pipeline embedded in a stage. -/
theorem stages_in_order {params : List Value} {tokens : List Token} {q : Select}
    {stages : List Value} (h : Select.compile params tokens = .ok q)
    (hpipeline : q.pipeline = .ok stages) : q.Staged stages :=
  staged_of_read rfl (isSubselect_of_subselectWithin _) h hpipeline

end Select

namespace Select.Sample

/-- A query with a join and a sub-select that holds another one. -/
def nestedTwice : List Token :=
  [.keyword .SELECT, .aliased (.name (some "t") "a") "x", .punctuation ',', .name (some "u") "b",
    .keyword .FROM, .name none "t",
    .keyword .LEFT_JOIN, .name none "u", .keyword .ON,
    .paren [.comparison (.name (some "t") "a") .eq (.name (some "u") "b")],
    .keyword .WHERE, .name none "c", .keyword .IN,
    .paren [.keyword .SELECT, .name none "d", .keyword .FROM, .name none "v",
      .keyword .WHERE, .name none "e", .keyword .IN,
      .paren [.keyword .SELECT, .name none "f", .keyword .FROM, .name none "w"]],
    .keyword .ORDER_BY, .name none "x", .keyword .LIMIT, .literal (.int 3)]

def nestedStages : List String :=
  ["$lookup", "$unwind", "$addFields", "$lookup", "$addFields", "$match", "$sort", "$limit",
    "$project"]

set_option maxRecDepth 8000 in
theorem operators_nestedTwice :
    (Select.compile [] nestedTwice >>= Select.pipeline).toOption.map (·.map Value.operator) =
      some nestedStages := by
  with_unfolding_all rfl

theorem nestedTwice_in_order : ∃ q stages, Select.compile [] nestedTwice = .ok q ∧
    q.pipeline = .ok stages ∧ stages.map Value.operator = nestedStages ∧ q.Staged stages := by
  obtain ⟨stages, hstages, hnames⟩ := Option.map_eq_some_iff.mp operators_nestedTwice
  obtain ⟨q, hq, hpipeline⟩ :=
    Compiled.bind_eq_ok.mp (Compiled.toOption_eq_some.mp hstages)
  exact ⟨q, stages, hq, hpipeline, hnames, stages_in_order hq hpipeline⟩

end Select.Sample
end DocSql
