import DocSql.Proofs.FirstOccurrences
import DocSql.Proofs.StageOrder

/-! # The collections that a query reads

A query names its collections before it is run, so that they can be looked for in the schema.  The
store reads the collection of FROM and those that look-up stages name: the stages of the pipeline, and
the stages of the pipelines embedded in it at any depth.

The list of a query holds what its own stages name.  What a sub-select looks up for itself, for a join
or a sub-select of its own, is not passed on: the list is complete exactly if every such collection is
in it for another reason (`collections_complete_iff`).
-/
namespace DocSql
open List

variable {collection : String}

/-- The collection that a look-up stage names. -/
def Value.lookedUp? : Value → Option String
  | .object [(name, .object fields)] =>
    if name = "$lookup" then (Entries.get? fields "from").bind Value.asString? else none
  | _ => none

/-- A look-up stage names the collection, in the pipeline or in one embedded in it at any depth. -/
inductive LooksUp (collection : String) : List Value → Prop
  | here {stages : List Value} {stage : Value} (mem : stage ∈ stages)
    (names : stage.lookedUp? = some collection) : LooksUp collection stages
  | deeper {stages inner : List Value} {stage : Value} (mem : stage ∈ stages)
    (embeds : stage.embedded? = some inner) (reads : LooksUp collection inner) :
    LooksUp collection stages

/-- What a pipeline looks up is named by its own stages or looked up by an embedded pipeline. -/
theorem looksUp_iff {stages : List Value} : LooksUp collection stages ↔
    collection ∈ stages.filterMap Value.lookedUp? ∨
      ∃ inner ∈ stages.filterMap Value.embedded?, LooksUp collection inner := by
  simp only [mem_filterMap]
  constructor
  · intro h
    cases h with
    | here mem names => exact .inl ⟨_, mem, names⟩
    | deeper mem embeds reads => exact .inr ⟨_, ⟨_, mem, embeds⟩, reads⟩
  · rintro (⟨stage, mem, names⟩ | ⟨inner, ⟨stage, mem, embeds⟩, reads⟩)
    · exact .here mem names
    · exact .deeper mem embeds reads

/-! ### Stages that look nothing up -/

theorem Value.operator_of_lookedUp? {stage : Value} (h : stage.lookedUp? = some collection) :
    stage.operator = "$lookup" := by
  unfold lookedUp? at h
  split at h
  · rename_i name fields
    by_cases hname : name = "$lookup"
    · exact hname
    · rw [if_neg hname] at h
      cases h
  · cases h

namespace Stages

/-- No word of the language has a look-up. -/
def WithoutLookup (l : Language String) : Prop := ∀ names ∈ l, "$lookup" ∉ names

variable {l l' : Language String}

theorem withoutLookup_one {name : String} (h : name ≠ "$lookup") : WithoutLookup (one name) := by
  rintro names rfl
  simpa using h.symm

theorem withoutLookup_optional (h : WithoutLookup l) : WithoutLookup (optional l) := by
  rintro names (hnil | hmem)
  · rw [(Language.mem_one names).mp hnil]
    exact not_mem_nil
  · exact h names hmem

theorem withoutLookup_mul (h : WithoutLookup l) (h' : WithoutLookup l') :
    WithoutLookup (l * l') := by
  intro names hmem
  obtain ⟨first, hfirst, rest, hrest, rfl⟩ := Language.mem_mul.mp hmem
  rw [mem_append]
  rintro (hin | hin)
  · exact h first hfirst hin
  · exact h' rest hrest hin

theorem withoutLookup_grouping : WithoutLookup grouping :=
  withoutLookup_mul (withoutLookup_mul (withoutLookup_one (by decide))
    (withoutLookup_optional (withoutLookup_one (by decide)))) (withoutLookup_one (by decide))

theorem withoutLookup_distinct : WithoutLookup distinct :=
  withoutLookup_mul (withoutLookup_one (by decide)) (withoutLookup_one (by decide))

theorem withoutLookup_sorting : WithoutLookup sorting :=
  withoutLookup_mul (withoutLookup_optional (withoutLookup_one (by decide)))
    (withoutLookup_one (by decide))

theorem withoutLookup_window : WithoutLookup window :=
  withoutLookup_mul (withoutLookup_optional (withoutLookup_one (by decide)))
    (withoutLookup_optional (withoutLookup_one (by decide)))

end Stages

theorem Fits.lookedUp {l : Language String} {embedded : List (List Value)} {stages : List Value}
    (h : Fits l embedded stages) (hl : Stages.WithoutLookup l) :
    stages.filterMap Value.lookedUp? = [] := by
  rw [filterMap_eq_nil_iff]
  intro stage hstage
  rw [Option.eq_none_iff_forall_ne_some]
  intro collection hnames
  refine hl _ h.names ?_
  rw [← Value.operator_of_lookedUp? hnames]
  exact mem_map_of_mem hstage

/-! ### Stages that look up -/

theorem Join.lookedUp (join : Join) :
    join.stages.filterMap Value.lookedUp? = [join.table.collection] := by
  have hlookup : join.lookupStage.lookedUp? = some join.table.collection := by
    simp [lookupStage, Value.field, Value.lookedUp?, Entries.get?_cons, Value.asString?]
  have hother {name : String} (value : Value) (h : name ≠ "$lookup") :
      (Value.field name value).lookedUp? = none := by
    cases value <;> simp [Value.field, Value.lookedUp?, h]
  unfold stages
  cases join.kind with
  | inner => simp [hlookup, hother]
  | outer => simp [hlookup, hother]

theorem NestedList.lookedUp (n : NestedList) :
    n.stages.filterMap Value.lookedUp? = [n.subselect.collection] := by
  simp [stages, Value.field, Value.lookedUp?, Entries.get?_cons, Value.asString?]

namespace Select

variable {q : Select} {stages : List Value}

/-- The stages of a pipeline name the collections of its joins and of its sub-selects. -/
theorem lookedUp_pipeline (h : q.pipeline = .ok stages) : stages.filterMap Value.lookedUp? =
    q.joins.map (·.table.collection) ++ q.nested.map (·.subselect.collection) := by
  obtain ⟨parts, rfl⟩ := parts_of_pipeline h
  have hmatch : "$match" ≠ "$lookup" := by decide
  have hmatch := Stages.withoutLookup_one hmatch
  have hlast : parts.last.filterMap Value.lookedUp? = [] := by
    rcases lastStages_eq_ok parts.last_eq with ⟨-, fields, hlast, -⟩ | ⟨-, name, hlast⟩ <;> rw [hlast]
    · exact (Fits.single "$project" _ (by decide)).lookedUp (Stages.withoutLookup_one (by decide))
    · exact (Fits.single "$count" _ (by decide)).lookedUp (Stages.withoutLookup_one (by decide))
  simp only [PipelineParts.stages, filterMap_append, filterMap_flatMap, Join.lookedUp,
    NestedList.lookedUp,
    (Fits.stagesOf parts.filter_eq Filter.fits).lookedUp (Stages.withoutLookup_optional hmatch),
    (Fits.stagesOf parts.grouping_eq Grouping.fits).lookedUp
      (Stages.withoutLookup_optional Stages.withoutLookup_grouping),
    (Fits.stagesOf parts.having_eq Having.fits).lookedUp (Stages.withoutLookup_optional hmatch),
    (Fits.stagesOf parts.distinct_eq Distinct.fits).lookedUp
      (Stages.withoutLookup_optional Stages.withoutLookup_distinct),
    (Fits.stagesOf parts.sorting_eq Sorting.fits).lookedUp
      (Stages.withoutLookup_optional Stages.withoutLookup_sorting),
    (Window.fits parts.window_eq).lookedUp Stages.withoutLookup_window, hlast, append_nil,
    map_eq_flatMap]

/-- The list of a query holds the collection of FROM and those that its own stages name. -/
theorem mem_collections (h : q.pipeline = .ok stages) : collection ∈ q.collections ↔
      collection = q.collection ∨ collection ∈ stages.filterMap Value.lookedUp? := by
  rw [lookedUp_pipeline h, collections, mem_eraseDups, mem_cons]

/-- What a pipeline looks up is named by its own stages or looked up by a sub-select. -/
theorem looksUp_pipeline (h : q.pipeline = .ok stages) :
    LooksUp collection stages ↔ collection ∈ stages.filterMap Value.lookedUp? ∨
      ∃ n ∈ q.nested, LooksUp collection n.subselect.pipeline := by
  rw [looksUp_iff, (fits_pipeline h).embedded]
  simp only [mem_map, exists_exists_and_eq_and]

/-! ### Sub-selects -/

/-- The sub-select is compiled from a query, which reads its collection and has its pipeline. -/
def Embeds (params : List Value) (s : Subselect) (inner : Select) : Prop :=
  (∃ fuel tokens, read (subselectWithin params fuel) { params } tokens = .ok inner) ∧
    inner.collection = s.collection ∧ inner.pipeline = .ok s.pipeline

theorem embeds_of_subselectWithin {params : List Value} {fuel : Nat} {tokens : List Token}
    {s : Subselect} (h : subselectWithin params fuel tokens = .ok s) :
    ∃ inner, Embeds params s inner := by
  cases fuel with
  | zero => cases h
  | succ fuel =>
    obtain ⟨inner, hread, h⟩ := Compiled.bind_eq_ok.mp h
    unfold toSubselect at h
    split at h
    · split at h
      · obtain ⟨pipeline, hpipeline, rfl⟩ := Compiled.bind₁_eq_ok.mp h
        exact ⟨inner, ⟨fuel, tokens, hread⟩, rfl, hpipeline⟩
      · cases h
    · cases h

/-- **The collections that a query names, and those that it reads.**  The list of an accepted query has
no duplicates and holds the collection of FROM and those that the stages of its pipeline name, and no
others.  Each sub-select is a query of its own, with the collection that the stage names.  The list is
all that is read, at any depth, exactly if it holds what the sub-selects look up in their turn. -/
theorem collections_complete_iff {params : List Value} {tokens : List Token} {q : Select}
    {stages : List Value} (h : Select.compile params tokens = .ok q)
    (hpipeline : q.pipeline = .ok stages) :
    q.collections.Nodup ∧
    (∀ collection, collection ∈ q.collections ↔
      collection = q.collection ∨ collection ∈ stages.filterMap Value.lookedUp?) ∧
    (∀ n ∈ q.nested, n.subselect.collection ∈ q.collections ∧
      ∃ inner, Embeds params n.subselect inner) ∧
    ((∀ collection, collection ∈ q.collections ↔
        collection = q.collection ∨ LooksUp collection stages) ↔
      ∀ n ∈ q.nested, ∀ collection, LooksUp collection n.subselect.pipeline →
        collection ∈ q.collections) := by
  obtain ⟨course⟩ := course_of_read h
  refine ⟨nodup_eraseDups _, fun collection => mem_collections hpipeline, fun n hn => ⟨?_, ?_⟩,
    fun hall n hn collection hinner => ?_, fun hinner collection => ?_⟩
  · rw [mem_collections hpipeline, lookedUp_pipeline hpipeline]
    exact .inr (List.mem_append_right _ (List.mem_map_of_mem hn))
  · obtain ⟨tokens', hcompiles⟩ := course.compiles_nested rfl n hn
    exact embeds_of_subselectWithin hcompiles
  · exact (hall collection).mpr (.inr ((looksUp_pipeline hpipeline).mpr (.inr ⟨n, hn, hinner⟩)))
  · constructor
    · intro hmem
      rcases (mem_collections hpipeline).mp hmem with heq | hnamed
      · exact .inl heq
      · exact .inr ((looksUp_pipeline hpipeline).mpr (.inl hnamed))
    · rintro (heq | hreads)
      · exact (mem_collections hpipeline).mpr (.inl heq)
      rcases (looksUp_pipeline hpipeline).mp hreads with hnamed | ⟨n, hn, hreads⟩
      · exact (mem_collections hpipeline).mpr (.inr hnamed)
      · exact hinner n hn collection hreads

end Select

namespace Select.Sample

/-- A query whose sub-select has a join. -/
def joinInside : List Token := [.keyword .SELECT, .name none "a", .keyword .FROM, .name none "t",
    .keyword .WHERE, .name none "a", .keyword .IN,
    .paren [.keyword .SELECT, .name (some "u") "x", .keyword .FROM, .name none "u",
      .keyword .JOIN, .name none "v", .keyword .ON,
      .comparison (.name (some "u") "i") .eq (.name (some "v") "j")]]

set_option maxRecDepth 8000 in
theorem compile_joinInside : (Select.compile [] joinInside).toOption.map
    (fun q => (q.collections, q.pipeline.toOption.map (·.filterMap Value.lookedUp?),
      q.nested.map (·.subselect.pipeline.filterMap Value.lookedUp?))) =
      some (["t", "u"], some ["u"], [["v"]]) := by
  with_unfolding_all rfl

/-- The collection that the sub-select joins is read, but is not in the list. -/
theorem joinInside_incomplete : ∃ q stages, Select.compile [] joinInside = .ok q ∧
    q.pipeline = .ok stages ∧ q.collections = ["t", "u"] ∧ LooksUp "v" stages ∧
    ¬∀ collection, collection ∈ q.collections ↔
      collection = q.collection ∨ LooksUp collection stages := by
  obtain ⟨q, hq, hfacts⟩ := Option.map_eq_some_iff.mp compile_joinInside
  have hq := Compiled.toOption_eq_some.mp hq
  simp only [Prod.mk.injEq] at hfacts
  obtain ⟨hcollections, hstages, hinner⟩ := hfacts
  obtain ⟨stages, hpipeline, -⟩ := Option.map_eq_some_iff.mp hstages
  have hpipeline := Compiled.toOption_eq_some.mp hpipeline
  obtain ⟨n, hnested, hnames⟩ := List.map_eq_singleton_iff.mp hinner
  have hn : n ∈ q.nested := by simp [hnested]
  have hreads : LooksUp "v" n.subselect.pipeline := looksUp_iff.mpr (.inl (by simp [hnames]))
  refine ⟨q, stages, hq, hpipeline, hcollections,
    (looksUp_pipeline hpipeline).mpr (.inr ⟨n, hn, hreads⟩), fun hall => ?_⟩
  obtain ⟨-, -, -, hiff⟩ := collections_complete_iff hq hpipeline
  have hmem := hiff.mp hall n hn "v" hreads
  rw [hcollections] at hmem
  exact absurd hmem (by decide)

end Select.Sample
end DocSql
