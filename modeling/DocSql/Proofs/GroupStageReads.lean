import DocSql.Proofs.FetchedReferences
import DocSql.Proofs.GroupedQuery
import DocSql.Proofs.QueryReferences

/-! # What a group stage reads

A group stage stands before any stage that makes an alias, so what it reads has to be columns.  A
key that is an alias alone is the item that declares it, and the SELECT list uses no aliases.
Elsewhere an alias stays as it is: as a part of a key, and in the argument of an aggregate of HAVING
or ORDER BY.  `Select.group_stage_reads` says that an alias is read exactly in these cases.
-/
namespace DocSql
open Compiled List

variable {columns : Columns} {c c' : TokenCursor} {having : Option Having} {t : Term}

/-! ### Stages -/

/-- The paths that the parts of the key of a group read. -/
def keyReads : Value → List String
  | .object keys => keys.flatMap fun key => exprReads key.2
  | _ => []

/-- The paths that a group stage reads: for its key, and for what it collects. -/
def groupReads : Value → List String
  | .object [(name, .object ((id, key) :: fields))] =>
    if name = "$group" ∧ id = "_id" then
      keyReads key ++ fields.flatMap fun field => exprReads field.2
    else []
  | _ => []

section

variable {p : String}

/-- An aggregate reads what it refers to. -/
theorem Term.mem_accumulator {v : Value} (h : t.accumulator = .ok v) :
    p ∈ exprReads v ↔ Reads t.references p := by
  unfold Term.accumulator at h
  split at h
  · cases h
    simp [Value.field, exprReads, fieldReads, Term.references]
  · obtain ⟨e, he, rfl⟩ := bind₁_eq_ok.mp h
    rw [mem_exprReads_field (by decide), Term.mem_exprReads_iff he, Term.references]
  · obtain ⟨e, he, rfl⟩ := bind₁_eq_ok.mp h
    rw [mem_exprReads_field (by decide), mem_exprReads_field (by decide), exprReads_object]
    simp only [fieldReads, if_neg (by decide : "if" ≠ "$literal"),
      if_neg (by decide : "then" ≠ "$literal"), if_neg (by decide : "else" ≠ "$literal"), exprReads,
      append_nil]
    rw [mem_exprReads_binary (by decide), Term.mem_exprReads_iff he]
    simp [exprReads, Term.references]
  · cases h
  · rename_i fn arg _
    obtain ⟨e, he, rfl⟩ := bind₁_eq_ok.mp h
    rw [mem_exprReads_field (by cases fn <;> decide), Term.mem_exprReads_iff he, Term.references]
  · cases h

namespace Grouping

variable {g : Grouping}

/-- The group collects the first value of the path. -/
def Carries (g : Grouping) (path : String) : Prop := ∃ field ∈ g.fields, field.source = .first path

theorem mem_keyDocument {key : Value} (h : g.keyDocument = .ok key) :
    p ∈ keyReads key ↔ ∃ k ∈ g.keys, Reads k.term.references p := by
  have hkeys : ∀ {keys : List GroupKey} {entries : List (String × Value)}, Forall₂ (fun key entry =>
        (do return (key.name, ← key.term.expression) : Compiled (String × Value)) = .ok entry)
        keys entries →
      (p ∈ keyReads (.object entries) ↔ ∃ k ∈ keys, Reads k.term.references p) := by
    intro keys entries hall
    rw [keyReads, mem_flatMap]
    induction hall with
    | nil => simp
    | cons hkey _ ih =>
      obtain ⟨e, he, rfl⟩ := bind₁_eq_ok.mp hkey
      simp only [mem_cons, exists_eq_or_imp, ih, Term.mem_exprReads_iff he]
  unfold keyDocument at h
  split at h
  · rename_i hempty
    cases h
    simp [keyReads, isEmpty_iff.mp hempty]
  · obtain ⟨entries, hentries, rfl⟩ := bind₁_eq_ok.mp h
    exact hkeys (forall₂_of_mapM hentries)

theorem mem_document {source : Collected} (h : IsExact source) :
    p ∈ exprReads source.document ↔ Reads source.references p ∨ source = .first p := by
  cases source with
  | aggregate call accumulator =>
    simp [Collected.document, Collected.references, Term.mem_accumulator h.2]
  | first path =>
    rw [Collected.document, mem_exprReads_field (by decide)]
    simp [Collected.references, eq_comm]

/-- The stage of a plan reads what the plan refers to, and the paths that it carries. -/
theorem mem_groupReads (hg : g.Sound) {stage : Value} (h : g.groupStage = .ok stage) :
    p ∈ groupReads stage ↔ Reads g.references p ∨ g.Carries p := by
  obtain ⟨key, hkey, rfl⟩ := bind₁_eq_ok.mp h
  have hfields : p ∈ (g.fields.map fun field => (field.name, field.source.document)).flatMap
      (fun field => exprReads field.2) ↔
      ∃ field ∈ g.fields, Reads field.source.references p ∨ field.source = .first p := by
    rw [flatMap_map, mem_flatMap]
    exact exists_congr fun field =>
      and_congr_right fun hfield => mem_document (hg.exact field hfield)
  simp only [groupReads, Value.field, and_self, if_true, mem_append, mem_keyDocument hkey,
    hfields, references, reads_append, reads_flatMap, Carries]
  grind

end Grouping

end

/-! ### Clauses as they are read -/

/-- The tokens of a clause, where it is next. -/
def TokenCursor.clause? (c : TokenCursor) (k : Keyword) : Option (List Token) :=
  (c.eat? k).map fun after => (after.takeUntil isClauseKeyword).1

namespace Grouping

/-- A term that stands alone in GROUP BY, and the key that it makes: an alias is the item that
declares it, and any other term is itself. -/
inductive KeyOf (s : Scope) : Term → Term → Prop
  | declared {name : String} {t : Term} (h : s.aliases.get? name = some t) : KeyOf s (.field name) t
  | self {t : Term} (h : ∀ name, t ≠ .field name) : KeyOf s t t

variable {r : Reading}

theorem keyTerm_spec {piece : List Token} {u : Term} (h : keyTerm r piece = .ok u) :
    ∃ t, Reading.resolveOne { r with aliases := true } piece = .ok t ∧ KeyOf r.scope t u := by
  obtain ⟨t, ht, h⟩ := bind_eq_ok.mp h
  refine ⟨t, ht, ?_⟩
  simp only [Compiled.pure_def, ok_bind] at h
  split at h
  · split at h
    · rename_i halias
      split at h
      · cases h
      · cases h
        exact .declared halias
    · cases h
  · rename_i hfield
    split at h
    · cases h
    · cases h
      exact .self hfield

/-- Each piece of GROUP BY makes a key, and there are no others. -/
theorem readKeys_spec : ∀ {pieces : List (List Token)} {taken : List String} {place : Nat}
    {keys : List GroupKey}, readKeys r columns taken place pieces = .ok keys →
    (∀ key ∈ keys, ∃ piece ∈ pieces, keyTerm r piece = .ok key.term) ∧
      ∀ piece ∈ pieces, ∃ key ∈ keys, keyTerm r piece = .ok key.term
  | [], _, _, _, h => by
    cases h
    exact ⟨nofun, nofun⟩
  | piece :: pieces, _, _, _, h => by
    obtain ⟨term, hterm, keys, hkeys, rfl⟩ := bind₂_eq_ok.mp h
    obtain ⟨hforth, hback⟩ := readKeys_spec hkeys
    refine ⟨forall_mem_cons.mpr ⟨⟨piece, mem_cons_self, hterm⟩, ?_⟩,
      forall_mem_cons.mpr ⟨⟨_, mem_cons_self, hterm⟩, ?_⟩⟩
    · intro key hkey
      obtain ⟨other, hother, hread⟩ := hforth key hkey
      exact ⟨other, mem_cons_of_mem _ hother, hread⟩
    · intro other hother
      obtain ⟨key, hkey, hread⟩ := hback other hother
      exact ⟨key, mem_cons_of_mem _ hkey, hread⟩

theorem read_cases {explicit : Option Grouping}
    (h : Grouping.read? r columns c = .ok (explicit, c')) :
    (c.clause? .GROUP_BY = none ∧ explicit = none) ∨
      ∃ list keys span, c.clause? .GROUP_BY = some list ∧
        readKeys r columns [] 0 (Token.splitCommas list) = .ok keys ∧
        explicit = some { keys, explicit := true, span } := by
  rw [TokenCursor.clause?]
  obtain ⟨heat, rfl, -⟩ | ⟨_, keys, heat, hkeys, -, rfl⟩ := read?_eq_ok h
  · exact .inl ⟨by rw [heat]; rfl, rfl⟩
  · exact .inr ⟨_, keys, _, by rw [heat]; rfl, hkeys, rfl⟩

end Grouping

theorem Having.read_cases {r : Reading} {g g' : Grouping}
    (h : Having.read? r columns g c = .ok (having, g', c')) :
    (c.clause? .HAVING = none ∧ g' = g) ∨ ∃ list asked condition, c.clause? .HAVING = some list ∧
        Reading.condition { r with aliases := true } list = .ok asked ∧
        (asked.transform (Grouping.exposeNode columns) false).run g = .ok (condition, g') := by
  rw [TokenCursor.clause?]
  obtain ⟨heat, -, rfl, -⟩ | ⟨_, asked, condition, heat, hasked, hrun, -⟩ := Having.read?_eq_ok h
  · exact .inl ⟨by rw [heat]; rfl, rfl⟩
  · exact .inr ⟨_, asked, condition, by rw [heat]; rfl, hasked, hrun⟩

namespace Sorting

/-- A key of a DISTINCT that is no alias equals the item that it is sorted by. -/
theorem distinctItem_cases {item : SelectItem} (h : distinctItem columns t = .ok item) :
    (∃ label, t = .field label) ∨ item ∈ columns.items ∧ item.term.same t = true := by
  unfold distinctItem at h
  simp only at h
  split at h
  · rename_i found hfound
    cases h
    split at hfound
    · exact .inl ⟨_, rfl⟩
    · exact .inr ⟨mem_of_find?_eq_some hfound, by simpa using find?_some hfound⟩
  · cases h

theorem distinctItem_of_resolveDistinct {sorting sorted : Sorting}
    (h : sorting.resolveDistinct columns = .ok sorted) :
    ∀ key ∈ sorting.keys, ∃ item, distinctItem columns key.term = .ok item := by
  obtain ⟨fields, hfields, -⟩ := bind_eq_ok.mp h
  have hall := forall₂_of_mapM hfields
  generalize sorting.keys = keys at hall ⊢
  clear hfields
  induction hall with
  | nil => exact nofun
  | cons hkey _ ih =>
    obtain ⟨item, hitem, -⟩ := bind_eq_ok.mp hkey
    exact forall_mem_cons.mpr ⟨⟨item, hitem⟩, ih⟩

end Sorting

namespace Select

variable {subselect : List Token → Compiled Subselect} {params : List Value} {tokens : List Token}
variable {q : Select} {g : Grouping}

/-- How an order changes the plan of a grouping: its keys are exposed, unless there is no order or
its keys are items of a DISTINCT. -/
inductive Resolves (columns : Columns) : Option Sorting → Grouping → Grouping → Prop
  | unsorted (g : Grouping) : Resolves columns none g g
  | distinct {sorting : Sorting} (g : Grouping)
    (hitems : ∀ key ∈ sorting.keys, ∃ item, Sorting.distinctItem columns key.term = .ok item) :
    Resolves columns (some sorting) g g
  | exposed {sorting : Sorting} {g g' : Grouping} {fields : List (String × Direction)}
    (hrun : (Sorting.exposeKeys columns sorting.keys).run g = .ok (fields, g')) :
    Resolves columns (some sorting) g g'

theorem resolveSorting_cases {distinct : Bool} {sorting sorted : Option Sorting}
    {grouping : Option Grouping}
    (h : resolveSorting columns distinct sorting grouping = .ok (sorted, some g)) :
    ∃ grouped, grouping = some grouped ∧ Resolves columns sorting grouped g := by
  cases sorting with
  | none =>
    cases h
    exact ⟨g, rfl, .unsorted g⟩
  | some sorting =>
    cases distinct with
    | true =>
      obtain ⟨sorted', hsorted, h⟩ := bind_eq_ok.mp h
      cases h
      exact ⟨g, rfl, .distinct g (Sorting.distinctItem_of_resolveDistinct hsorted)⟩
    | false =>
      cases grouping with
      | none =>
        obtain ⟨sorted', -, h⟩ := bind_eq_ok.mp h
        cases h
      | some grouped =>
        obtain ⟨⟨sorted', g'⟩, hsorted, h⟩ := bind_eq_ok.mp h
        cases h
        obtain ⟨⟨fields, g'⟩, hrun, hsorted⟩ := bind_eq_ok.mp hsorted
        cases hsorted
        exact ⟨grouped, rfl, .exposed hrun⟩

theorem readHaving_cases {r : Reading} {planned : Option Grouping}
    (h : readHaving r columns planned c = .ok (having, some g, c')) :
    ∃ start, planned = some start ∧ Having.read? r columns start c = .ok (having, g, c') := by
  cases planned with
  | none => cases h
  | some start =>
    obtain ⟨⟨clause, g', after⟩, hread, h⟩ := bind_eq_ok.mp h
    cases h
    exact ⟨start, rfl, hread⟩

namespace Course

variable (C : Course subselect { params } tokens q)
variable {c : Column}

/-- The term stands alone in GROUP BY. -/
def GroupsBy (t : Term) : Prop :=
  ∃ list piece, C.afterFilter.clause? .GROUP_BY = some list ∧ piece ∈ Token.splitCommas list ∧
    Reading.resolveOne ⟨C.nested, true, subselect⟩ piece = .ok t

/-- The condition is the one of HAVING, as it stands there. -/
def Asks (c : Condition) : Prop := ∃ list, C.afterKeys.clause? .HAVING = some list ∧
    Reading.condition ⟨C.nested, true, subselect⟩ list = .ok c

/-- The term is a key of ORDER BY, as it stands there. -/
def SortsBy (t : Term) : Prop :=
  ∃ sorting, C.sorting = some sorting ∧ ∃ key ∈ sorting.keys, key.term = t

/-- The grouping fetches what is referred to, for the SELECT list, for HAVING, or for ORDER BY. -/
def Fetches (ref : Reference) : Prop := (∃ item ∈ C.columns.items, ref ∈ item.term.fetched true) ∨
    (∃ c, C.Asks c ∧ ref ∈ c.fetched false) ∨ ∃ t, C.SortsBy t ∧ ref ∈ t.fetched true

/-- The plans of the grouping of a query: for GROUP BY, with the SELECT list, and with HAVING. -/
structure Plans (g : Grouping) where
  start : Grouping
  planned : Grouping
  grouped : Grouping
  start_eq : C.outline.plan C.afterKeys.position = some start
  planned_eq : (Grouping.addItems C.columns.items).run start = .ok ((), planned)
  grouped_eq : Having.read? ⟨C.nested, false, subselect⟩ C.columns planned C.afterKeys =
    .ok (q.having, grouped, C.afterHaving)
  resolves : Resolves q.columns C.sorting grouped g

theorem exists_plans (hg : q.grouping = some g) : Nonempty (C.Plans g) := by
  have hresolved := C.resolved_eq
  have hhaving := C.having_eq
  have hplanned := C.planned_eq
  rw [hg] at hresolved
  -- from the end: without a plan at one of the steps there is none behind it
  obtain ⟨grouped, hgrouped, hresolves⟩ := resolveSorting_cases hresolved
  rw [hgrouped] at hhaving
  obtain ⟨planned, hsome, hread⟩ := readHaving_cases hhaving
  rw [hsome] at hplanned
  cases hstart : C.outline.plan C.afterKeys.position with
  | none =>
    rw [hstart] at hplanned
    cases hplanned
  | some start =>
    rw [hstart] at hplanned
    obtain ⟨planned', hadd, hplanned⟩ := bind_eq_ok.mp hplanned
    cases hplanned
    obtain ⟨⟨⟨⟩, g'⟩, hrun, hadd⟩ := bind_eq_ok.mp hadd
    cases hadd
    exact ⟨⟨start, planned, grouped, hstart, hrun, hread, hresolves⟩⟩

/-! ### What the clauses refer to -/

theorem refers_groupsBy (h : C.GroupsBy t) :
    ∀ ref ∈ t.references, Reading.Refers ⟨C.nested, true, subselect⟩ ref := by
  obtain ⟨list, piece, -, -, hresolve⟩ := h
  exact (Trait.refers _).term_resolveOne hresolve

theorem refers_asks {c : Condition} (h : C.Asks c) :
    ∀ ref ∈ c.references, Reading.Refers ⟨C.nested, true, subselect⟩ ref := by
  obtain ⟨list, -, hcondition⟩ := h
  exact (Trait.refers _).condition_read hcondition

theorem refers_sortsBy (h : C.SortsBy t) :
    ∀ ref ∈ t.references, Reading.Refers ⟨C.nested, true, subselect⟩ ref := by
  obtain ⟨sorting, hsorting, key, hkey, rfl⟩ := h
  exact C.refers_sorting hsorting key hkey

theorem hasColumn_of_fetches (h : C.Fetches (.column c)) : q.HasColumn c := by
  rcases h with ⟨item, hitem, hmem⟩ | ⟨asked, hasks, hmem⟩ | ⟨t, hsorts, hmem⟩
  · exact C.hasColumn_item hitem (item.term.fetched_subset hmem)
  · exact C.serves_nested.hasColumn (C.refers_asks hasks _ (asked.fetched_subset hmem))
  · exact C.serves_nested.hasColumn (C.refers_sortsBy hsorts _ (t.fetched_subset hmem))

/-- The SELECT list fetches no alias. -/
theorem fetches_field {a : String} : C.Fetches (.field a) ↔
    (∃ c, C.Asks c ∧ .field a ∈ c.fetched false) ∨
      ∃ t, C.SortsBy t ∧ .field a ∈ t.fetched true := by
  refine or_iff_right ?_
  rintro ⟨item, hitem, hmem⟩
  exact C.field_not_mem_item hitem a (item.term.fetched_subset hmem)

theorem hasColumn_of_keyOf {u : Term} (h : Grouping.KeyOf C.nested t u) (ht : C.GroupsBy t)
    (hc : .column c ∈ u.references) : q.HasColumn c := by
  cases h with
  | declared halias =>
    obtain ⟨item, hitem, -, rfl⟩ := C.item_of_alias halias
    exact C.hasColumn_item hitem hc
  | self => exact C.serves_nested.hasColumn (C.refers_groupsBy ht _ hc)

/-- A key refers to an alias exactly if the alias is part of it in GROUP BY. -/
theorem field_mem_of_keyOf {u : Term} (h : Grouping.KeyOf C.nested t u) {a : String} :
    .field a ∈ u.references ↔ (∀ label, t ≠ .field label) ∧ .field a ∈ t.references := by
  cases h with
  | declared halias =>
    obtain ⟨item, hitem, -, rfl⟩ := C.item_of_alias halias
    refine iff_of_false (C.field_not_mem_item hitem a) ?_
    exact fun hpart => hpart.1 _ rfl
  | self hfield => exact ⟨fun hmem => ⟨hfield, hmem⟩, fun hpart => hpart.2⟩

variable {C}

namespace Plans

variable (plans : C.Plans g)

/-- The first plan has the keys of GROUP BY and collects nothing. -/
theorem start_spec : plans.start.Valid ∧ plans.start.outputs = [] ∧ plans.start.fields = [] ∧
    (∀ key ∈ plans.start.keys, ∃ t, C.GroupsBy t ∧ Grouping.KeyOf C.nested t key.term) ∧
    ∀ t, C.GroupsBy t → ∃ key ∈ plans.start.keys, Grouping.KeyOf C.nested t key.term := by
  have hstart := plans.start_eq
  have hexplicit := C.explicit_eq
  rw [C.outline_eq, Outline.plan] at hstart
  rcases Grouping.read_cases hexplicit with ⟨hclause, hnone⟩ |
    ⟨list, keys, span, hclause, hkeys, hsome⟩
  · rw [hnone] at hstart
    dsimp only at hstart
    split at hstart
    · rw [← Option.some.inj hstart]
      refine ⟨Grouping.valid_implicit _, rfl, rfl, forall_mem_nil _, ?_⟩
      rintro t ⟨list, -, hlist, -⟩
      cases hclause.symm.trans hlist
    · cases hstart
  · rw [hsome] at hstart hexplicit
    obtain ⟨hvalid, hempty⟩ := Grouping.valid_read hexplicit
    obtain ⟨hforth, hback⟩ := Grouping.readKeys_spec hkeys
    rw [← Option.some.inj hstart]
    refine ⟨hvalid, hempty, rfl, ?_, ?_⟩
    · intro key hkey
      obtain ⟨piece, hpiece, hterm⟩ := hforth key hkey
      obtain ⟨t, ht, hkeyOf⟩ := Grouping.keyTerm_spec hterm
      exact ⟨t, ⟨list, piece, hclause, hpiece, ht⟩, hkeyOf⟩
    · rintro t ⟨list', piece, hlist, hpiece, ht⟩
      cases hclause.symm.trans hlist
      obtain ⟨key, hkey, hterm⟩ := hback piece hpiece
      obtain ⟨t', ht', hkeyOf⟩ := Grouping.keyTerm_spec hterm
      cases ht.symm.trans ht'
      exact ⟨key, hkey, hkeyOf⟩

theorem planned_spec : (Grouping.exposing C.columns).inv plans.planned ∧
    plans.start.Extends plans.planned := by
  obtain ⟨hvalid, hempty, -⟩ := plans.start_spec
  obtain ⟨hvalid', hext, hitems⟩ :=
    Grouping.addItems_spec hvalid (Columns.read_names C.columns_eq) (by simp [hempty])
      plans.planned_eq
  exact ⟨⟨hvalid', hitems⟩, hext⟩

/-- HAVING is rewritten to outputs that hold its operands, from then on. -/
theorem grouped_spec : (Grouping.exposing C.columns).inv plans.grouped ∧
    plans.planned.Extends plans.grouped ∧ ∀ asked, C.Asks asked →
      ∀ later, plans.grouped.Extends later →
        ∃ condition, Condition.Rewritten later.Stands false asked condition := by
  obtain ⟨hinv, -⟩ := plans.planned_spec
  rcases Having.read_cases plans.grouped_eq with ⟨hclause, heq⟩ |
    ⟨list, asked, condition, hclause, hasked, hrun⟩
  · rw [heq]
    refine ⟨hinv, .refl _, ?_⟩
    rintro asked ⟨list, hlist, -⟩
    cases hclause.symm.trans hlist
  · obtain ⟨hinv', hext, hrewritten⟩ := Condition.yields_transform
      (Grouping.yields_exposeNode_stands C.columns) asked _ condition _ hinv hrun
    refine ⟨hinv', hext, ?_⟩
    rintro asked' ⟨list', hlist, hasked'⟩ later hlater
    cases hclause.symm.trans hlist
    cases hasked.symm.trans hasked'
    exact ⟨condition, hrewritten later hlater⟩

/-- An alias that is fetched for a key of ORDER BY is referred to: the key is held by an output,
since neither an alias nor an item of the SELECT list fetches one. -/
theorem sorted_spec : plans.grouped.Extends g ∧ ∀ t, C.SortsBy t → ∀ a, .field a ∈ t.fetched true →
    .field a ∈ g.references := by
  have hinv : (Grouping.exposing q.columns).inv plans.grouped := by
    rw [C.items_eq]
    exact plans.grouped_spec.1
  have hitems : q.columns.items = C.columns.items := by rw [C.items_eq]
  have hresolves := plans.resolves
  generalize hsorting : C.sorting = sorting, plans.grouped = grouped at hinv hresolves ⊢
  cases hresolves with
  | unsorted =>
    refine ⟨.refl _, ?_⟩
    rintro t ⟨sorting, hsome, -⟩
    cases hsorting.symm.trans hsome
  | @distinct sorting _ hdistinct =>
    refine ⟨.refl _, ?_⟩
    rintro t ⟨sorting', hsome, key, hkey, rfl⟩ a ha
    cases hsorting.symm.trans hsome
    obtain ⟨item, hitem⟩ := hdistinct key hkey
    rcases Sorting.distinctItem_cases hitem with ⟨label, heq⟩ | ⟨hmem, hsame⟩
    · rw [heq] at ha
      cases ha
    · have hfetched := (Term.Same.of_same hsame).field_mem_fetched.mpr ha
      exact absurd (item.term.fetched_subset hfetched) (C.field_not_mem_item (hitems ▸ hmem) a)
  | @exposed sorting _ _ fields hrun =>
    obtain ⟨-, hext, hholds⟩ :=
      Sorting.yields_exposeKeys_stands q.columns sorting.keys _ fields _ hinv hrun
    refine ⟨hext, ?_⟩
    rintro t ⟨sorting', hsome, key, hkey, rfl⟩ a ha
    cases hsorting.symm.trans hsome
    have hfield : ∀ label, key.term ≠ .field label := by
      intro label heq
      rw [heq] at ha
      cases ha
    obtain ⟨name, hname⟩ := hholds g (.refl g) key hkey hfield
    exact hname.field_mem ha

/-- What the grouping collects has been fetched for a clause of the query. -/
theorem from_fetches (plans : C.Plans g) : g.From C.Fetches := by
  have hstart : plans.start.From C.Fetches := by
    intro field hfield
    rw [plans.start_spec.2.2.1] at hfield
    cases hfield
  have hplanned : plans.planned.From C.Fetches :=
    ((Grouping.steady_addItems (fun item hitem ref href => .inl ⟨item, hitem, href⟩) _).2 _ _
      plans.planned_eq).2 hstart
  have hgrouped : plans.grouped.From C.Fetches := by
    rcases Having.read_cases plans.grouped_eq with ⟨-, heq⟩ |
      ⟨list, asked, condition, hclause, hasked, hrun⟩
    · rwa [heq]
    · have hfetches : ∀ ref ∈ asked.fetched false, C.Fetches ref :=
        fun ref href => .inr (.inl ⟨asked, ⟨list, hclause, hasked⟩, href⟩)
      exact ((Grouping.steady_having hfetches _).2 _ _ hrun).2 hplanned
  have hresolves := plans.resolves
  generalize hsorting : C.sorting = sorting, plans.grouped = grouped at hgrouped hresolves
  cases hresolves with
  | unsorted | distinct => exact hgrouped
  | @exposed sorting _ _ fields hrun =>
    refine ((Sorting.steady_exposeKeys ?_ _).2 _ _ hrun).2 hgrouped
    exact fun key hkey ref href => .inr (.inr ⟨_, ⟨sorting, hsorting, key, hkey, rfl⟩, href⟩)

theorem extends_start : plans.start.Extends g :=
  (plans.planned_spec.2.trans plans.grouped_spec.2.1).trans plans.sorted_spec.1

/-- The aliases that the keys refer to are those that are part of a key. -/
theorem field_mem_keys (plans : C.Plans g) (a : String) :
    (∃ key ∈ g.keys, .field a ∈ key.term.references) ↔ ∃ t, C.GroupsBy t ∧
      (∀ label, t ≠ .field label) ∧ .field a ∈ t.references := by
  obtain ⟨-, -, -, hforth, hback⟩ := plans.start_spec
  rw [plans.extends_start.keys]
  constructor
  · rintro ⟨key, hkey, hmem⟩
    obtain ⟨t, ht, hkeyOf⟩ := hforth key hkey
    exact ⟨t, ht, (C.field_mem_of_keyOf hkeyOf).mp hmem⟩
  · rintro ⟨t, ht, hpart⟩
    obtain ⟨key, hkey, hkeyOf⟩ := hback t ht
    exact ⟨key, hkey, (C.field_mem_of_keyOf hkeyOf).mpr hpart⟩

/-- The aliases that a grouping refers to are part of a key, or fetched for HAVING or ORDER BY. -/
theorem field_mem_references (plans : C.Plans g) (a : String) : .field a ∈ g.references ↔
    (∃ t, C.GroupsBy t ∧ (∀ label, t ≠ .field label) ∧ .field a ∈ t.references) ∨
      (∃ c, C.Asks c ∧ .field a ∈ c.fetched false) ∨
        ∃ t, C.SortsBy t ∧ .field a ∈ t.fetched true := by
  rw [← plans.field_mem_keys, ← C.fetches_field]
  constructor
  · intro hmem
    rcases Grouping.mem_references.mp hmem with hkey | ⟨field, hfield, hmem⟩
    · exact .inl hkey
    · exact .inr ((plans.from_fetches field hfield).references _ hmem)
  · rintro (hkey | hfetches)
    · exact Grouping.mem_references.mpr (.inl hkey)
    · rcases C.fetches_field.mp hfetches with ⟨asked, hasks, hmem⟩ | ⟨t, hsorts, hmem⟩
      · obtain ⟨condition, hrewritten⟩ := plans.grouped_spec.2.2 asked hasks g plans.sorted_spec.1
        exact Grouping.field_mem_of_stands hrewritten hmem
      · exact plans.sorted_spec.2 t hsorts a hmem

theorem hasColumn_of_mem (plans : C.Plans g) (h : .column c ∈ g.references) : q.HasColumn c := by
  rcases Grouping.mem_references.mp h with ⟨key, hkey, hmem⟩ | ⟨field, hfield, hmem⟩
  · rw [plans.extends_start.keys] at hkey
    obtain ⟨t, ht, hkeyOf⟩ := plans.start_spec.2.2.2.1 key hkey
    exact C.hasColumn_of_keyOf hkeyOf ht hmem
  · exact C.hasColumn_of_fetches ((plans.from_fetches field hfield).references _ hmem)

end Plans

end Course

/-- **What a group stage reads.**  Take a query, the outer one or a sub-select, that compiles with a
grouping, and its group stage.  The stage reads exactly what the keys and the collected aggregates
refer to, and the paths that it carries.  The columns among it are columns of the query, and the
paths that it carries are those of columns of the query.  The fields among it are aliases.  An alias
is there exactly if it is part of an expression of GROUP BY and not all of it, or stands in the
argument of an aggregate of HAVING or ORDER BY.  What else is there are texts inside constants. -/
theorem group_stage_reads {stage : Value} (hq : Select.read subselect { params } tokens = .ok q)
    (hg : q.grouping = some g) (hstage : g.groupStage = .ok stage) :
    ∃ C : Course subselect { params } tokens q,
      (∀ p, p ∈ groupReads stage ↔ Reads g.references p ∨ g.Carries p) ∧
      (∀ c, .column c ∈ g.references → q.HasColumn c) ∧
      (∀ p, g.Carries p → ∃ c, C.Fetches (.column c) ∧ q.HasColumn c ∧ c.path = p) ∧
      (∀ a, .field a ∈ g.references → ∃ item ∈ q.columns.items, item.label = some a) ∧
      ∀ a, .field a ∈ g.references ↔
        (∃ t, C.GroupsBy t ∧ (∀ label, t ≠ .field label) ∧ .field a ∈ t.references) ∨
        (∃ c, C.Asks c ∧ .field a ∈ c.fetched false) ∨
        ∃ t, C.SortsBy t ∧ .field a ∈ t.fetched true := by
  obtain ⟨C⟩ := course_of_read hq
  obtain ⟨plans⟩ := C.exists_plans hg
  have hsound := (read_grouped hq hg).valid.toSound
  refine ⟨C, fun p => Grouping.mem_groupReads hsound hstage, fun c => plans.hasColumn_of_mem,
    ?_, ?_, plans.field_mem_references⟩
  · rintro p ⟨field, hfield, hsource⟩
    have hfrom := plans.from_fetches field hfield
    rw [hsource] at hfrom
    obtain ⟨c, hfetches, hpath⟩ := hfrom
    exact ⟨c, hfetches, C.hasColumn_of_fetches hfetches, hpath⟩
  · intro a ha
    have hitems : q.columns.items = C.columns.items := by rw [C.items_eq]
    rw [hitems]
    rcases (plans.field_mem_references a).mp ha with
      ⟨t, ht, -, hmem⟩ | ⟨c, hc, hmem⟩ | ⟨t, ht, hmem⟩
    · exact C.declares (C.refers_groupsBy ht _ hmem)
    · exact C.declares (C.refers_asks hc _ (c.fetched_subset hmem))
    · exact C.declares (C.refers_sortsBy ht _ (t.fetched_subset hmem))

end Select

/-! ### An alias inside a key

The sum of two columns has an alias, and the rows are grouped by one more than it. -/

namespace Grouping.Sample

def tokens : List Token :=
  [.keyword .SELECT, .aliased (.operation (.name none "a") .add (.name none "b")) "s",
    .punctuation ',', .aliased (.call "COUNT" [[.wildcard]]) "n", .keyword .FROM, .name none "t",
    .keyword .GROUP_BY, .operation (.name none "s") .add (.literal (.int 1))]

def sum : Term := .arith .add (.column ⟨"t", "a", "a"⟩) (.column ⟨"t", "b", "b"⟩)

def grouping : Grouping where
  keys := [⟨"key_0", .arith .add (.field "s") (.const (.int 1))⟩]
  fields := [⟨"a", .first "a"⟩, ⟨"b", .first "b"⟩,
    ⟨"count_all", .aggregate .countAll (.field "$sum" (.int 1))⟩]
  outputs := [("s", .arith .add (.field "a") (.field "b")), ("n", .field "count_all")]
  explicit := true
  span := ⟨6, 8⟩

def query : Select where
  source := ⟨⟨"t", "t"⟩, ⟨4, 6⟩⟩
  joins := []
  nested := []
  columns := { items := [⟨sum, "s", some "s"⟩, ⟨.countAll, "n", some "n"⟩], materialized := true,
               span := ⟨1, 4⟩ }
  filter := none
  grouping := some grouping
  having := none
  distinct := none
  sorting := none
  window := none
  shape := .documents ["s", "n"] none

def stage : Value :=
  .field "$group" (.object [("_id", .field "key_0" (.field "$add" (.array [.path "s", .int 1]))),
    ("a", .field "$first" (.path "a")), ("b", .field "$first" (.path "b")),
    ("count_all", .field "$sum" (.int 1))])

set_option maxRecDepth 8000 in
theorem compiles : Select.compile [] tokens = .ok query := by with_unfolding_all rfl

/-- The key reads the alias, which only a later stage makes. -/
theorem key_reads_alias :
    Select.compile [] tokens = .ok query ∧ query.grouping = some grouping ∧
      grouping.groupStage = .ok stage ∧ "s" ∈ groupReads stage ∧
      ∃ item ∈ query.columns.items, item.label = some "s" := by
  have hstage : grouping.groupStage = .ok stage := by with_unfolding_all rfl
  have hread : Select.read (Select.subselectWithin [] (Token.depthAll tokens)) { params := [] }
      tokens = .ok query := compiles
  obtain ⟨-, hreads, -, -, hlabel, -⟩ := Select.group_stage_reads hread rfl hstage
  have hmem : .field "s" ∈ grouping.references := by
    simp [references, grouping, Term.references]
  exact ⟨compiles, rfl, hstage, (hreads "s").mpr (.inl ⟨_, hmem, rfl⟩), hlabel "s" hmem⟩

end Grouping.Sample

end DocSql
