import DocSql.Proofs.GroupedQuery
import DocSql.Proofs.QueryReferences

/-! # What a plain order reads

Without a grouping and without DISTINCT an order sorts the documents before the last projection
makes the aliases.  A key that is a column is sorted by its path.  Any other is computed first,
under a private name; a key that is an alias alone is then computed as the item that declares it.
An alias that is only a part of a key stays as it is, and so the order reads a field that is not
there yet: `Select.plain_order_reads` says that this is the only case.
-/
namespace DocSql
open Compiled List

variable {name : String}

theorem fieldReads_append (fields fields' : List (String × Value)) :
    fieldReads (fields ++ fields') = fieldReads fields ++ fieldReads fields' := by
  induction fields with
  | nil => rfl
  | cons field fields ih =>
    obtain ⟨name, e⟩ := field
    simp [fieldReads, ih]

theorem Columns.mem_items_of_byName {columns : Columns} {item : SelectItem}
    (h : columns.byName name = .ok item) : item ∈ columns.items := by
  unfold Columns.byName at h
  split at h
  · rename_i found hfound
    cases h
    exact mem_of_find?_eq_some hfound
  · cases h

namespace Sorting

variable {columns : Columns}
variable {keys : List SortKey}

/-- What the computed fields of a plain order refer to: the terms that its keys sort by, other than
columns. -/
def computedReferences (columns : Columns) (keys : List SortKey) : List Reference :=
  keys.flatMap fun key =>
    match plainTerm columns key.term with
    | .ok (.column _) => []
    | .ok t => t.references
    | .error _ => []

theorem mem_computedReferences {ref : Reference} :
    ref ∈ computedReferences columns keys ↔ ∃ key ∈ keys, ∃ t,
      plainTerm columns key.term = .ok t ∧ (∀ c, t ≠ .column c) ∧ ref ∈ t.references := by
  rw [computedReferences, mem_flatMap]
  refine exists_congr fun key => and_congr_right fun _ => ?_
  split
  · rename_i c hterm
    simp [hterm]
  · rename_i t hcolumn hterm
    constructor
    · exact fun hmem => ⟨t, hterm, hcolumn, hmem⟩
    · rintro ⟨u, hu, -, hmem⟩
      cases hterm.symm.trans hu
      exact hmem
  · rename_i hterm
    simp [hterm]

/-- A key sorts by an item of the SELECT list, or by its own term, which is then no alias alone. -/
theorem plainTerm_spec {t u : Term} (h : plainTerm columns t = .ok u) :
    (∃ item ∈ columns.items, u = item.term) ∨ u = t ∧ ∀ name, t ≠ .field name := by
  unfold plainTerm at h
  split at h
  · obtain ⟨item, hitem, rfl⟩ := bind₁_eq_ok.mp h
    exact .inl ⟨item, Columns.mem_items_of_byName hitem, rfl⟩
  · rename_i hfield
    split at h
    · rename_i item hitem
      cases h
      exact .inl ⟨item, mem_of_find?_eq_some hitem, rfl⟩
    · cases h
      exact .inr ⟨rfl, hfield⟩

/-- If no item refers to an alias, then a plain order refers to those that are part of a key. -/
theorem field_mem_computedReferences
    (hitems : ∀ item ∈ columns.items, .field name ∉ item.term.references) :
    .field name ∈ computedReferences columns keys ↔
      ∃ key ∈ keys, (∀ label, key.term ≠ .field label) ∧ .field name ∈ key.term.references := by
  rw [mem_computedReferences]
  refine exists_congr fun key => and_congr_right fun _ => ?_
  constructor
  · rintro ⟨t, ht, -, hmem⟩
    rcases plainTerm_spec ht with ⟨item, hitem, rfl⟩ | ⟨rfl, hfield⟩
    · exact absurd hmem (hitems item hitem)
    · exact ⟨hfield, hmem⟩
  · rintro ⟨hfield, hmem⟩
    -- an item that equals the key would refer to the alias as well
    have hnone : columns.byTerm? key.term = none := by
      cases hfind : columns.byTerm? key.term with
      | none => rfl
      | some item =>
        have hsame : item.term.Same key.term := .of_same (by simpa using find?_some hfind)
        exact absurd (hsame.field_mem.mpr hmem) (hitems item (mem_of_find?_eq_some hfind))
    refine ⟨key.term, ?_, ?_, hmem⟩
    · unfold plainTerm
      split
      · rename_i label hlabel
        exact absurd hlabel (hfield label)
      · rw [hnone]
    · intro c hcolumn
      rw [hcolumn] at hmem
      cases mem_singleton.mp hmem

/-- The private name of a field that is computed for a key. -/
def IsPrivate (name : String) : Prop := ∃ place : Nat, name = s!"_sort_{place}"

theorem IsPrivate.ne_literal (h : IsPrivate name) : name ≠ "$literal" := by
  obtain ⟨place, rfl⟩ := h
  intro heq
  have hhead := congrArg (fun s : String => s.toList.head?) heq
  simp [ToString.toString] at hhead

/-- A plain key is sorted by the path of a column, or by a private field that holds its value. -/
inductive PlainKey (columns : Columns) (key : SortKey) : String × Option Value → Prop
  | column {c : Column} (hterm : plainTerm columns key.term = .ok (.column c)) :
    PlainKey columns key (c.path, none)
  | computed {t : Term} {name : String} {e : Value} (hterm : plainTerm columns key.term = .ok t)
    (hcolumn : ∀ c, t ≠ .column c) (hname : IsPrivate name) (he : t.expression = .ok e) :
    PlainKey columns key (name, some e)

theorem plainKey_spec {place : Nat} {key : SortKey} {result : String × Option Value}
    (h : plainKey columns place key = .ok result) : PlainKey columns key result := by
  obtain ⟨t, ht, h⟩ := bind_eq_ok.mp h
  split at h
  · cases h
    exact .column ht
  · rename_i hcolumn
    obtain ⟨e, he, rfl⟩ := bind₁_eq_ok.mp h
    exact .computed ht hcolumn ⟨place, rfl⟩ he

/-- The fields that keys are sorted by, and those that are computed for them. -/
structure PlainKeys (columns : Columns) (keys : List SortKey) (fields : List (String × Direction))
    (computed : List (String × Value)) : Prop where
  reads : ∀ p, p ∈ fieldReads computed ↔ Reads (computedReferences columns keys) p
  sorts : ∀ field ∈ fields,
    (∃ key ∈ keys, ∃ c, plainTerm columns key.term = .ok (.column c) ∧ field.1 = c.path) ∨
      IsPrivate field.1 ∧ ∃ e, (field.1, e) ∈ computed

theorem PlainKeys.cons {key : SortKey} {value : Option Value} {fields : List (String × Direction)}
    {computed : List (String × Value)} (hkey : PlainKey columns key (name, value))
    (hkeys : PlainKeys columns keys fields computed) :
    PlainKeys columns (key :: keys) ((name, key.direction) :: fields)
      (value.toList.map (fun e => (name, e)) ++ computed) := by
  have hlater : ∀ field ∈ fields, (∃ k ∈ key :: keys, ∃ c,
      plainTerm columns k.term = .ok (.column c) ∧ field.1 = c.path) ∨ IsPrivate field.1 ∧
          ∃ e, (field.1, e) ∈ value.toList.map (fun e => (name, e)) ++ computed := by
    intro field hfield
    rcases hkeys.sorts field hfield with ⟨k, hk, hcolumn⟩ | ⟨hprivate, e, he⟩
    · exact .inl ⟨k, mem_cons_of_mem _ hk, hcolumn⟩
    · exact .inr ⟨hprivate, e, mem_append_right _ he⟩
  cases hkey with
  | column hterm =>
    refine ⟨fun p => ?_, forall_mem_cons.mpr ⟨.inl ⟨key, mem_cons_self, _, hterm, rfl⟩, hlater⟩⟩
    simpa [computedReferences, hterm] using hkeys.reads p
  | @computed t _ e hterm hcolumn hname he =>
    refine ⟨fun p => ?_, forall_mem_cons.mpr ⟨.inr ⟨hname, e, by simp⟩, hlater⟩⟩
    have hrefs : computedReferences columns (key :: keys) =
        t.references ++ computedReferences columns keys := by
      rw [computedReferences, flatMap_cons, hterm]
      cases t with
      | column c => exact absurd rfl (hcolumn c)
      | _ => rfl
    rw [hrefs, reads_append, fieldReads_append, mem_append, hkeys.reads,
      ← Term.mem_exprReads_iff he]
    simp [fieldReads, hname.ne_literal]

/-- Adding plain keys adds the fields that they are sorted by. -/
theorem addPlain_spec : ∀ {keys : List SortKey} {place : Nat} {sorting sorted : Sorting},
    addPlain columns place sorting keys = .ok sorted →
    ∃ fields computed, PlainKeys columns keys fields computed ∧
      sorted = { sorting with
        fields := sorting.fields ++ fields, computed := sorting.computed ++ computed }
  | [], place, sorting, sorted, h => by
    cases h
    refine ⟨[], [], ⟨fun p => ?_, nofun⟩, by simp⟩
    simp [fieldReads, computedReferences]
  | key :: keys, place, sorting, sorted, h => by
    obtain ⟨⟨name, value⟩, hkey, h⟩ := bind_eq_ok.mp h
    obtain ⟨fields, computed, hkeys, rfl⟩ := addPlain_spec h
    refine ⟨_, _, hkeys.cons (plainKey_spec hkey), ?_⟩
    simp

theorem resolvePlain_spec {sorting sorted : Sorting}
    (h : sorting.resolvePlain columns = .ok sorted) :
    sorted.keys = sorting.keys ∧ PlainKeys columns sorting.keys sorted.fields sorted.computed := by
  obtain ⟨fields, computed, hkeys, rfl⟩ := addPlain_spec h
  exact ⟨rfl, hkeys⟩

/-- The stages of an order: what has to be computed, and the sort. -/
theorem stages_eq (sorting : Sorting) : ∃ before, Clause.stages sorting =
    .ok (before ++ [.field "$sort" (.object sorting.document)]) ∧
      (∀ stage ∈ before, stage = .field "$addFields" (.object sorting.computed)) ∧
      before.flatMap stageReads = fieldReads sorting.computed := by
  refine ⟨if sorting.needsPipeline then
      [Value.field "$addFields" (.object sorting.computed)] else [], rfl, by split <;> simp, ?_⟩
  cases hcomputed : sorting.computed with
  | nil => simp [needsPipeline, hcomputed, fieldReads]
  | cons field fields => simp [needsPipeline, hcomputed, Value.field, stageReads]

/-- The sort reads the fields that the keys are resolved to. -/
theorem stageReads_document {sorting : Sorting} {p : String}
    (h : p ∈ stageReads (.field "$sort" (.object sorting.document))) :
    ∃ field ∈ sorting.fields, field.1 = p := by
  rw [stageReads_sort] at h
  obtain ⟨entry, hentry, rfl⟩ := mem_map.mp h
  rcases Entries.mem_insertAll hentry with hnil | hmem
  · cases hnil
  · obtain ⟨field, hfield, rfl⟩ := mem_map.mp hmem
    exact ⟨field, hfield, rfl⟩

end Sorting

namespace Select

variable {subselect : List Token → Compiled Subselect} {params : List Value} {tokens : List Token}
variable {q : Select} {sorting : Sorting}

/-- The order of a query without grouping and DISTINCT is resolved against the documents. -/
theorem Course.resolvePlain {scope : Scope} (C : Course subselect scope tokens q)
    (hgrouping : q.grouping = none)
    (hdistinct : q.distinct = none) (hsorting : q.sorting = some sorting) :
    ∃ read, C.sorting = some read ∧ read.resolvePlain q.columns = .ok sorting := by
  have hplain : C.distinct = false := by
    cases hasked : C.distinct with
    | false => rfl
    | true =>
      have hrows := C.rows_eq
      rw [hasked, if_pos rfl, hdistinct] at hrows
      obtain ⟨rows, -, hrows⟩ := map_eq_ok.mp hrows
      cases hrows
  have hresolved := C.resolved_eq
  rw [hplain, hgrouping, hsorting] at hresolved
  cases hread : C.sorting with
  | none =>
    rw [hread] at hresolved
    cases hresolved
  | some read =>
    rw [hread] at hresolved
    cases hgrouped : C.grouped with
    | some g =>
      rw [hgrouped] at hresolved
      obtain ⟨result, -, hresolved⟩ := bind_eq_ok.mp hresolved
      cases hresolved
    | none =>
      rw [hgrouped] at hresolved
      obtain ⟨sorted, hsorted, hresolved⟩ := bind_eq_ok.mp hresolved
      cases hresolved
      exact ⟨read, rfl, hsorted⟩

/-- **What a plain order reads.**  Take a query with an order, the outer one or a sub-select, that
compiles without a grouping and without DISTINCT.  What is computed before the sort reads exactly
what the keys refer to.  The columns among it are columns of the query.  The fields among it are
aliases, and an alias is there exactly if it is part of a key and not all of it.  What else is there
are texts inside constants.  The sort reads columns of the query that are keys, and private fields
that have been computed. -/
theorem plain_order_reads (hq : Select.read subselect { params } tokens = .ok q)
    (hgrouping : q.grouping = none) (hdistinct : q.distinct = none)
    (hsorting : q.sorting = some sorting) :
    ∃ before, Clause.stages sorting =
        .ok (before ++ [.field "$sort" (.object sorting.document)]) ∧
      (∀ stage ∈ before, stage = .field "$addFields" (.object sorting.computed)) ∧
      (∀ p, p ∈ before.flatMap stageReads ↔
        Reads (Sorting.computedReferences q.columns sorting.keys) p) ∧
      (∀ c, .column c ∈ Sorting.computedReferences q.columns sorting.keys → q.HasColumn c) ∧
      (∀ a, .field a ∈ Sorting.computedReferences q.columns sorting.keys →
        ∃ item ∈ q.columns.items, item.label = some a) ∧
      (∀ a, .field a ∈ Sorting.computedReferences q.columns sorting.keys ↔
        ∃ key ∈ sorting.keys, (∀ label, key.term ≠ .field label) ∧
          .field a ∈ key.term.references) ∧
      ∀ p ∈ stageReads (.field "$sort" (.object sorting.document)),
        (∃ key ∈ sorting.keys, ∃ c, Sorting.plainTerm q.columns key.term = .ok (.column c) ∧
          q.HasColumn c ∧ p = c.path) ∨
        Sorting.IsPrivate p ∧ ∃ e, (p, e) ∈ sorting.computed := by
  obtain ⟨C⟩ := course_of_read hq
  obtain ⟨read, hread, hresolve⟩ := C.resolvePlain hgrouping hdistinct hsorting
  obtain ⟨hkeys, hplain⟩ := Sorting.resolvePlain_spec hresolve
  rw [← hkeys] at hplain
  have hitems : q.columns.items = C.columns.items := by rw [C.items_eq]
  have hrefers := C.refers_sorting hread
  rw [← hkeys] at hrefers
  -- a key sorts by a term of the query, whose columns are therefore columns of the query
  have hcolumn : ∀ key ∈ sorting.keys, ∀ t, Sorting.plainTerm q.columns key.term = .ok t →
      ∀ c, .column c ∈ t.references → q.HasColumn c := by
    intro key hkey t ht c hc
    rcases Sorting.plainTerm_spec ht with ⟨item, hitem, rfl⟩ | ⟨rfl, -⟩
    · exact C.hasColumn_item (hitems ▸ hitem) hc
    · exact C.serves_nested.hasColumn (hrefers key hkey _ hc)
  have hfield (a : String) : .field a ∈ Sorting.computedReferences q.columns sorting.keys ↔
      ∃ key ∈ sorting.keys, (∀ label, key.term ≠ .field label) ∧
        .field a ∈ key.term.references :=
    Sorting.field_mem_computedReferences fun item hitem => C.field_not_mem_item (hitems ▸ hitem) a
  obtain ⟨before, hstages, hbefore, hreads⟩ := sorting.stages_eq
  refine ⟨before, hstages, hbefore, fun p => by rw [hreads, hplain.reads], ?_, ?_, hfield, ?_⟩
  · intro c hc
    obtain ⟨key, hkey, t, ht, -, hmem⟩ := Sorting.mem_computedReferences.mp hc
    exact hcolumn key hkey t ht c hmem
  · intro a ha
    obtain ⟨key, hkey, -, hmem⟩ := (hfield a).mp ha
    rw [hitems]
    exact C.declares (hrefers key hkey _ hmem)
  · intro p hp
    obtain ⟨field, hmem, rfl⟩ := Sorting.stageReads_document hp
    rcases hplain.sorts field hmem with ⟨key, hkey, c, hterm, hpath⟩ | hprivate
    · refine .inl ⟨key, hkey, c, hterm, ?_, hpath⟩
      exact hcolumn key hkey _ hterm c (List.mem_singleton.mpr rfl)
    · exact .inr hprivate

end Select

/-! ### An alias inside a key

The sum of two columns has an alias, and the order is by one more than it. -/

namespace Sorting.Sample

def tokens : List Token :=
  [.keyword .SELECT, .aliased (.operation (.name none "a") .add (.name none "b")) "s",
    .keyword .FROM, .name none "t",
    .keyword .ORDER_BY, .operation (.name none "s") .add (.literal (.int 1))]

def sum : Term := .arith .add (.column ⟨"t", "a", "a"⟩) (.column ⟨"t", "b", "b"⟩)

def order : Sorting where
  keys := [⟨.arith .add (.field "s") (.const (.int 1)), .ascending⟩]
  fields := [("_sort_0", .ascending)]
  computed := [("_sort_0", .field "$add" (.array [.path "s", .int 1]))]
  span := ⟨4, 6⟩

def query : Select where
  source := ⟨⟨"t", "t"⟩, ⟨2, 4⟩⟩
  joins := []
  nested := []
  columns := { items := [⟨sum, "s", some "s"⟩], span := ⟨1, 2⟩ }
  filter := none
  grouping := none
  having := none
  distinct := none
  sorting := some order
  window := none
  shape := .documents ["s"] none

set_option maxRecDepth 8000 in
theorem compiles : Select.compile [] tokens = .ok query := by with_unfolding_all rfl

/-- The field that is computed for the key reads the alias, which only the last stage makes. -/
theorem order_reads_alias :
    Select.compile [] tokens = .ok query ∧ query.grouping = none ∧ query.distinct = none ∧
      query.sorting = some order ∧
      ∃ before, Clause.stages order =
          .ok (before ++ [.field "$sort" (.object order.document)]) ∧
        "s" ∈ before.flatMap stageReads ∧
        .field "s" ∈ computedReferences query.columns order.keys := by
  have hread : Select.read (Select.subselectWithin [] (Token.depthAll tokens)) { params := [] }
      tokens = .ok query := compiles
  obtain ⟨before, hstages, -, hreads, -, -, hfield, -⟩ :=
    Select.plain_order_reads hread rfl rfl rfl
  have hmem : .field "s" ∈ computedReferences query.columns order.keys := by
    refine (hfield "s").mpr ⟨_, List.mem_singleton_self _, nofun, ?_⟩
    simp [Term.references]
  exact ⟨compiles, rfl, rfl, rfl, before, hstages, (hreads "s").mpr ⟨_, hmem, rfl⟩, hmem⟩

end Sorting.Sample

end DocSql
