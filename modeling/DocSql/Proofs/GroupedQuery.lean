import DocSql.Proofs.ClauseReading
import DocSql.Proofs.GroupingReads

/-! # Grouped queries

The stages of a grouped query behind its group read what the stage before has made, except for the
paths that the planning of the grouping does not reach.  The projection reads keys and collected
fields, and HAVING and ORDER BY read outputs.  A column that is a member of a list of values, or in
HAVING the argument of a date call, is not rewritten and stays a path of the rows.
-/
namespace DocSql
open Compiled List

variable {r : Reading} {columns : Columns} {g g' : Grouping} {c after : TokenCursor}
  {sorting : Sorting}

/-! ### Clauses -/

/-- The condition of HAVING is rewritten to the outputs of the grouping. -/
theorem Having.read_spec {having : Option Having} (hg : (Grouping.exposing columns).inv g)
    (h : Having.read? r columns g c = .ok (having, g', after)) :
    (Grouping.exposing columns).inv g' ∧ ∀ clause ∈ having, ∀ later, g'.Extends later →
        ∃ asked, Condition.Rewritten later.Exposes false asked clause.condition := by
  obtain ⟨-, rfl, rfl, -⟩ | ⟨_, asked, condition, -, -, hrun, -, rfl⟩ := Having.read?_eq_ok h
  · exact ⟨hg, nofun⟩
  · obtain ⟨hinv, -, hrewritten⟩ :=
      Condition.yields_transform (Grouping.yields_exposeNode columns) asked g condition g' hg hrun
    refine ⟨hinv, ?_⟩
    rintro clause ⟨⟩ later hext
    exact ⟨asked, hrewritten later hext⟩

/-- The keys of an order are outputs of the grouping. -/
theorem Sorting.yields_exposeKeys (columns : Columns) : ∀ keys : List SortKey,
    (Grouping.exposing columns).Yields (Sorting.exposeKeys columns keys)
      fun h fields => ∀ field ∈ fields, field.1 ∈ h.outputs.keys
  | [] => .pure fun _ => nofun
  | key :: keys => by
    refine (Grouping.yields_expose columns key.term).bind fun name =>
      (Sorting.yields_exposeKeys columns keys).bind fun fields => .pure ?_
    rintro h hfields ⟨hname, -⟩ field hfield
    rcases mem_cons.mp hfield with rfl | hfield
    · exact hname
    · exact hfields field hfield

/-- An order sorts by outputs of a grouping and computes nothing. -/
def Sorting.OverOutputs (sorting : Sorting) (g : Grouping) : Prop :=
  sorting.computed = [] ∧ ∀ field ∈ sorting.fields, field.1 ∈ g.outputs.keys

theorem Sorting.resolveGrouped_spec {sorted : Sorting} (hg : (Grouping.exposing columns).inv g)
    (hcomputed : sorting.computed = []) (h : sorting.resolveGrouped columns g = .ok (sorted, g')) :
    (Grouping.exposing columns).inv g' ∧ g.Extends g' ∧ sorted.OverOutputs g' := by
  obtain ⟨⟨fields, g₁⟩, hrun, h⟩ := bind_eq_ok.mp h
  cases h
  obtain ⟨hinv, hext, hfields⟩ := Sorting.yields_exposeKeys columns sorting.keys g fields g' hg hrun
  exact ⟨hinv, hext, hcomputed, hfields g' (.refl g')⟩

theorem Sorting.mem_items_of_distinctItem {t : Term} {item : SelectItem}
    (h : Sorting.distinctItem columns t = .ok item) : item ∈ columns.items := by
  unfold Sorting.distinctItem at h
  simp only at h
  split at h
  · rename_i found hfound
    cases h
    split at hfound
    · exact mem_of_find?_eq_some hfound
    · exact mem_of_find?_eq_some hfound
  · cases h

theorem Sorting.resolveDistinct_spec {sorted : Sorting} (hg : (Grouping.exposing columns).inv g)
    (hcomputed : sorting.computed = []) (h : sorting.resolveDistinct columns = .ok sorted) :
    sorted.OverOutputs g := by
  obtain ⟨fields, hfields, rfl⟩ := bind₁_eq_ok.mp h
  refine ⟨hcomputed, ?_⟩
  intro field hfield
  obtain ⟨key, -, hkey⟩ := exists_of_mapM hfields field hfield
  obtain ⟨item, hitem, rfl⟩ := bind₁_eq_ok.mp hkey
  obtain ⟨out, hout, -⟩ := hg.2 item (Sorting.mem_items_of_distinctItem hitem)
  exact Entries.mem_keys_of_get? hout

theorem Sorting.computed_read (h : Sorting.read? r c = .ok (some sorting, after)) :
    sorting.computed = [] := by
  obtain ⟨hnone, -⟩ | ⟨_, _, -, -, -, -, hsome⟩ := Sorting.read?_eq_ok h
  · cases hnone
  · cases hsome
    rfl

namespace Select

variable {planned grouping : Option Grouping}

/-- The grouping of a query is ready to expose terms once it has the outputs of the SELECT list. -/
theorem inv_plan {outline : Outline} {position : Nat} (hnames : columns.names.Nodup)
    (hexplicit : ∀ g, outline.grouping = some g → g.Valid ∧ g.outputs = [])
    (h : (outline.plan position).mapM (fun g => g.addOutputs columns) = .ok planned) :
    ∀ g ∈ planned, (Grouping.exposing columns).inv g := by
  have hplan : ∀ g, outline.plan position = some g → g.Valid ∧ g.outputs = [] := by
    intro g hg
    rw [Outline.plan] at hg
    split at hg
    · rename_i g' hgrouping
      cases hg
      exact hexplicit g hgrouping
    · split at hg
      · cases hg
        exact ⟨Grouping.valid_implicit position, rfl⟩
      · cases hg
  cases hg : outline.plan position with
  | none =>
    rw [hg] at h
    cases h
    exact nofun
  | some g =>
    rw [hg] at h
    obtain ⟨g', hadd, rfl⟩ := bind₁_eq_ok.mp h
    rintro g'' ⟨⟩
    obtain ⟨hvalid, hempty⟩ := hplan g hg
    exact Grouping.inv_addOutputs hnames hvalid hempty hadd

theorem readHaving_spec {having : Option Having}
    (hplanned : ∀ g ∈ planned, (Grouping.exposing columns).inv g)
    (h : readHaving r columns planned c = .ok (having, grouping, after)) :
    ∀ g ∈ grouping, (Grouping.exposing columns).inv g ∧ ∀ clause ∈ having,
      ∀ later, g.Extends later →
        ∃ asked, Condition.Rewritten later.Exposes false asked clause.condition := by
  cases planned with
  | none =>
    cases h
    exact nofun
  | some g =>
    obtain ⟨⟨clause, g', c'⟩, hread, h⟩ := bind_eq_ok.mp h
    cases h
    rintro g'' ⟨⟩
    exact Having.read_spec (hplanned g rfl) hread

/-- Resolving an order keeps a grouping ready to expose terms, and the order sorts by its outputs. -/
theorem resolveSorting_spec {distinct : Bool} {sorting sorted : Option Sorting}
    (h : resolveSorting columns distinct sorting grouping = .ok (sorted, some g'))
    (hgrouping : ∀ g ∈ grouping, (Grouping.exposing columns).inv g)
    (hcomputed : ∀ s ∈ sorting, s.computed = []) :
    ∃ g ∈ grouping, g'.Valid ∧ g.Extends g' ∧ ∀ s ∈ sorted, s.OverOutputs g' := by
  cases sorting with
  | none =>
    cases h
    exact ⟨g', rfl, (hgrouping g' rfl).1, .refl g', nofun⟩
  | some sorting =>
    have hnone := hcomputed sorting rfl
    cases distinct with
    | true =>
      obtain ⟨s, hs, h⟩ := bind_eq_ok.mp h
      cases h
      refine ⟨g', rfl, (hgrouping g' rfl).1, .refl g', ?_⟩
      rintro s' ⟨⟩
      exact Sorting.resolveDistinct_spec (hgrouping g' rfl) hnone hs
    | false =>
      cases grouping with
      | none =>
        obtain ⟨s, -, h⟩ := bind_eq_ok.mp h
        cases h
      | some g =>
        obtain ⟨⟨s, g₁⟩, hs, h⟩ := bind_eq_ok.mp h
        cases h
        obtain ⟨hinv, hext, hover⟩ := Sorting.resolveGrouped_spec (hgrouping g rfl) hnone hs
        refine ⟨g, rfl, hinv.1, hext, ?_⟩
        rintro s' ⟨⟩
        exact hover

/-- What is known of a grouped query: its outputs stand for terms over rows, HAVING is rewritten to
them, and the order sorts by them. -/
structure Grouped (q : Select) (g : Grouping) : Prop where
  valid : g.Valid
  having : ∀ clause ∈ q.having, ∃ asked, Condition.Rewritten g.Exposes false asked clause.condition
  sorting : ∀ clause ∈ q.sorting, clause.OverOutputs g

/-- The clauses of a grouped query fit its grouping. -/
theorem read_grouped {subselect : List Token → Compiled Subselect} {scope : Scope}
    {tokens : List Token} {q : Select} (h : Select.read subselect scope tokens = .ok q)
    (hg : q.grouping = some g) : q.Grouped g := by
  obtain ⟨C⟩ := course_of_read h
  have hexplicit : ∀ g, C.outline.grouping = some g → g.Valid ∧ g.outputs = [] := by
    intro g hsome
    have heq : C.explicit = some g := by rwa [C.outline_eq] at hsome
    exact Grouping.valid_read (heq ▸ C.explicit_eq)
  have hinv := inv_plan (Columns.read_names C.columns_eq) hexplicit C.planned_eq
  have hhaving := readHaving_spec hinv C.having_eq
  have hresolved := C.resolved_eq
  rw [hg, C.items_eq] at hresolved
  -- the plan only grows after HAVING, so what HAVING reads is still there at the end
  obtain ⟨g', hg', hvalid, hext, hover⟩ :=
    resolveSorting_spec hresolved (fun g hg => (hhaving g hg).1)
      fun s hs => Sorting.computed_read (hs ▸ C.sorting_eq)
  exact { valid := hvalid
          having := fun clause hclause => (hhaving g' hg').2 clause hclause g hext
          sorting := hover }

end Select

/-! ### What the stages read -/

namespace Grouping

/-- The paths that the group makes: those of its keys and of its collected fields. -/
def Produces (g : Grouping) (path : String) : Prop :=
  (∃ key ∈ g.keys, path = "_id." ++ key.name) ∨ ∃ field ∈ g.fields, path = field.name

theorem Replaces.produces {t u : Term} (h : g.Replaces t u) :
    ∀ p ∈ u.walked true, g.Produces p := by
  intro p hp
  cases h with
  | key hkey _ =>
    cases mem_singleton.mp hp
    exact .inl ⟨_, hkey, rfl⟩
  | call hfield _ _ | column hfield _ =>
    cases mem_singleton.mp hp
    exact .inr ⟨_, hfield, rfl⟩

/-- The paths that the stage after the projection finds: the outputs, and what is inside them. -/
def Offers (g : Grouping) (path : String) : Prop := ∃ name ∈ g.outputs.keys, Within name path

theorem Exposes.mem_keys {t u : Term} (h : g.Exposes t u) :
    ∀ p ∈ u.walked false, p ∈ g.outputs.keys := by
  intro p hp
  obtain ⟨name, hname, rfl⟩ := h
  cases mem_singleton.mp hp
  exact hname

/-- The outputs read what the group makes, as far as lowering reaches. -/
theorem Valid.produces (hg : g.Valid) :
    ∀ output ∈ g.outputs, ∀ p ∈ output.2.walked true, g.Produces p := by
  intro output hout
  obtain ⟨t, hl⟩ := hg.lowered output hout
  exact (hl g (.refl g)).walked Replaces.produces

end Grouping

theorem stageReads_match (test : Value) : stageReads (.field "$match" test) = filterReads test := by
  cases test <;> simp [Value.field, stageReads, filterReads]

theorem stageReads_sort (fields : Fields) :
    stageReads (.field "$sort" (.object fields)) = fields.keys := by
  simp [Value.field, stageReads, Entries.keys]

namespace Select

/-- The paths that HAVING reads and the grouping has not rewritten. -/
def havingStray (q : Select) : List String :=
  match q.having with
  | some clause => clause.condition.filterStray
  | none => []

variable {q : Select} {stages : List Value}

/-- A path outside the outputs is read by HAVING exactly if it is stray. -/
theorem Grouped.mem_having (hq : q.Grouped g) (h : Clause.stagesOf q.having = .ok stages)
    {p : String} (hp : ¬g.Offers p) :
    p ∈ stages.flatMap stageReads ↔ p ∈ q.havingStray := by
  rw [havingStray]
  cases hhaving : q.having with
  | none =>
    rw [hhaving] at h
    cases h
    rfl
  | some clause =>
    rw [hhaving] at h
    obtain ⟨test, htest, rfl⟩ := bind₁_eq_ok.mp h
    obtain ⟨asked, hrewritten⟩ := hq.having clause hhaving
    rw [flatMap_singleton, stageReads_match]
    refine Condition.mem_filter htest fun name hname hwithin => hp ⟨name, ?_, hwithin⟩
    exact hrewritten.walked Grouping.Exposes.mem_keys name hname

theorem Grouped.reads_sorting (hq : q.Grouped g) (h : Clause.stagesOf q.sorting = .ok stages) :
    ∀ p ∈ stages.flatMap stageReads, p ∈ g.outputs.keys := by
  cases hsorting : q.sorting with
  | none =>
    rw [hsorting] at h
    cases h
    exact nofun
  | some clause =>
    obtain ⟨hcomputed, hfields⟩ := hq.sorting clause hsorting
    have hstages : Clause.stagesOf (some clause) =
        .ok [.field "$sort" (.object clause.document)] := by
      simp [Clause.stagesOf, Clause.stages, Sorting.needsPipeline, hcomputed]
    rw [hsorting, hstages] at h
    cases h
    rw [flatMap_singleton, stageReads_sort]
    intro p hp
    obtain ⟨entry, hentry, rfl⟩ := mem_map.mp hp
    rcases Entries.mem_insertAll hentry with hnil | hmem
    · cases hnil
    · obtain ⟨field, hfield, rfl⟩ := mem_map.mp hmem
      exact hfields field hfield

/-- The pipeline of a grouped query, taken apart around the stages of its grouping. -/
theorem pipeline_grouped (h : q.pipeline = .ok stages) (hg : q.grouping = some g) :
    ∃ before group project having distinct sorting after,
      stages = before ++ group :: (g.finalStages ++ project ::
        (having ++ distinct ++ sorting ++ after)) ∧
      g.groupStage = .ok group ∧ g.projectStage = .ok project ∧
      Clause.stagesOf q.having = .ok having ∧ Clause.stagesOf q.distinct = .ok distinct ∧
      Clause.stagesOf q.sorting = .ok sorting := by
  obtain ⟨parts, rfl⟩ := parts_of_pipeline h
  have hgrouping := parts.grouping_eq
  rw [hg] at hgrouping
  obtain ⟨group, hgroup, hgrouping⟩ := bind_eq_ok.mp hgrouping
  obtain ⟨project, hproject, hgrouping⟩ := bind_eq_ok.mp hgrouping
  refine ⟨q.joins.flatMap Join.stages ++ q.nested.flatMap NestedList.stages ++ parts.filter, group,
    project, parts.having, parts.distinct, parts.sorting, parts.window ++ parts.last, ?_, hgroup,
    hproject, parts.having_eq, parts.distinct_eq, parts.sorting_eq⟩
  rw [PipelineParts.stages, ← Except.ok.inj hgrouping]
  simp only [append_assoc, cons_append, nil_append]

/-- **What is read after a grouping.**  Take a query that compiles with a grouping and has a pipeline.
Behind the group stand the projection of the outputs, HAVING and the order.  A path other than a key
or a collected field is read by the projection exactly if it is stray in an output.  A path outside
the outputs is read by HAVING exactly if it is stray in its condition.  The order reads outputs
only. -/
theorem reads_after_grouping {params : List Value} {tokens : List Token}
    (hq : Select.compile params tokens = .ok q) (hg : q.grouping = some g)
    (hstages : q.pipeline = .ok stages) :
    ∃ before group project having distinct sorting after,
      stages = before ++ group :: (g.finalStages ++ project ::
        (having ++ distinct ++ sorting ++ after)) ∧
      g.groupStage = .ok group ∧ g.projectStage = .ok project ∧
      Clause.stagesOf q.having = .ok having ∧ Clause.stagesOf q.distinct = .ok distinct ∧
      Clause.stagesOf q.sorting = .ok sorting ∧
      (∀ p, ¬g.Produces p → (p ∈ stageReads project ↔ p ∈ g.strayPaths)) ∧
      (∀ p, ¬g.Offers p → (p ∈ having.flatMap stageReads ↔ p ∈ q.havingStray)) ∧
      ∀ p ∈ sorting.flatMap stageReads, p ∈ g.outputs.keys := by
  have hgrouped := read_grouped hq hg
  obtain ⟨before, group, project, having, distinct, sorting, after, hparts, hgroup, hproject,
    hhaving, hdistinct, hsorting⟩ := pipeline_grouped hstages hg
  refine ⟨before, group, project, having, distinct, sorting, after, hparts, hgroup, hproject,
    hhaving, hdistinct, hsorting, ?_, ?_, hgrouped.reads_sorting hsorting⟩
  · intro p hp
    refine Grouping.mem_projectStage hgrouped.valid.outputNames ?_ hproject
    exact fun output hout hmem => hp (hgrouped.valid.produces output hout p hmem)
  · intro p hp
    exact hgrouped.mem_having hhaving hp

end Select

/-! ### A list of values in HAVING

The count is looked for in a list with a column.  The column is no output, and HAVING reads it. -/

namespace Select.Sample

def key : Term := .column ⟨"t", "k", "k"⟩
def sum : Term := .aggregate .sum false (.column ⟨"t", "x", "x"⟩)

def tokens : List Token :=
  [.keyword .SELECT, .name none "k", .punctuation ',', .aliased (.call "COUNT" [[.wildcard]]) "n",
    .keyword .FROM, .name none "t", .keyword .GROUP_BY, .name none "k",
    .keyword .HAVING, .call "COUNT" [[.wildcard]], .keyword .IN,
    .paren [.name none "v", .punctuation ',', .literal (.int 1)],
    .keyword .ORDER_BY, .call "SUM" [[.name none "x"]]]

def grouping : Grouping where
  keys := [⟨"k", key⟩]
  fields := [⟨"count_all", .aggregate .countAll (.field "$sum" (.int 1))⟩,
    ⟨"sum_x", .aggregate sum (.field "$sum" (.path "x"))⟩]
  outputs := [("k", .field "_id.k"), ("n", .field "count_all"), ("_sum_x", .field "sum_x")]
  hidden := [(sum, "_sum_x")]
  explicit := true
  span := ⟨6, 8⟩

def query : Select where
  source := ⟨⟨"t", "t"⟩, ⟨4, 6⟩⟩
  joins := []
  nested := []
  columns := { items := [⟨key, "k", none⟩, ⟨.countAll, "n", some "n"⟩], materialized := true,
               span := ⟨1, 4⟩ }
  filter := none
  grouping := some grouping
  having := some ⟨.member (.field "n") (.list [.column ⟨"t", "v", "v"⟩, .const (.int 1)]) false,
    ⟨8, 12⟩⟩
  distinct := none
  sorting := some { keys := [⟨sum, .ascending⟩], fields := [("_sum_x", .ascending)],
                    span := ⟨12, 14⟩ }
  window := none
  shape := .documents ["k", "n"] none

def projection : Value :=
  .field "$project" (.object [("_id", .int 0), ("k", .path "_id.k"), ("n", .path "count_all"),
    ("_sum_x", .path "sum_x")])

def having : Value :=
  .field "$match" (.field "$expr" (binary "$in" (.path "n") (.array [.path "v", .int 1])))

def stages : List Value := [.field "$group" (.object [("_id", .field "k" (.path "k")),
      ("count_all", .field "$sum" (.int 1)), ("sum_x", .field "$sum" (.path "x"))]),
    projection,
    having,
    .field "$sort" (.field "_sum_x" (.int 1)),
    .field "$project" (.object [("k", .bool true), ("n", .bool true)])]

set_option maxRecDepth 8000 in
theorem compiles : Select.compile [] tokens = .ok query := by with_unfolding_all rfl

set_option maxRecDepth 4000 in
theorem pipeline_query : query.pipeline = .ok stages := by with_unfolding_all rfl

/-- The projection of the outputs reads what the group makes.  HAVING reads the column of the list,
which is outside the outputs. -/
theorem having_reads_column :
    Select.compile [] tokens = .ok query ∧ query.grouping = some grouping ∧
      query.pipeline = .ok stages ∧ projection ∈ stages ∧ having ∈ stages ∧
      (∀ p ∈ stageReads projection, grouping.Produces p) ∧
      "v" ∈ stageReads having ∧ ¬grouping.Offers "v" := by
  obtain ⟨-, -, project, clause, -, -, -, -, -, hproject, hclause, -, -, hprojected, hreads, -⟩ :=
    reads_after_grouping compiles rfl pipeline_query
  have hprojection : grouping.projectStage = .ok projection := by with_unfolding_all rfl
  have hhaving : Clause.stagesOf query.having = .ok [having] := by with_unfolding_all rfl
  have hstray : grouping.strayPaths = [] := rfl
  have hfresh : ¬grouping.Offers "v" := by
    rintro ⟨name, hname, heq | ⟨sub, heq⟩⟩
    · exact absurd (heq ▸ hname) (by decide)
    · have hdot : '.' ∈ "v".toList := by simp [heq]
      exact absurd hdot (by decide)
  cases hprojection.symm.trans hproject
  cases hhaving.symm.trans hclause
  rw [List.flatMap_singleton] at hreads
  refine ⟨compiles, rfl, pipeline_query, by simp [stages], by simp [stages], ?_,
    (hreads "v" hfresh).mpr (by decide), hfresh⟩
  intro p hp
  by_contra hnot
  have hmem := (hprojected p hnot).mp hp
  rw [hstray] at hmem
  cases hmem

end Select.Sample

end DocSql
