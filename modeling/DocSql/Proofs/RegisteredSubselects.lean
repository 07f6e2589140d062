import DocSql.Proofs.ClauseReading
import DocSql.Proofs.ConditionShape

/-! # Sub-selects that are registered

Before a condition is written, each of its sub-selects is put aside under the name of a field, and
the name is left in its place.  `Condition.Replaced` relates the two conditions to the entries that
are put aside, position by position.  Since the names are numbered they are pairwise different, so
that the entries tell for each name what stood there: `Condition.restored` gives the first condition
back.  In a query that is read the entries are those of its WHERE clause alone, and the stages that
fill their fields come before the one that tests them.
-/
namespace DocSql
open List

variable {entries : List NestedList} {n : NestedList} {filter : Filter}

/-! ### Names -/

theorem map_name_numbered (place : Nat) (subselects : List Subselect) :
    (numbered place subselects).map (·.name) =
      (range' place subselects.length).map fun k => s!"_nested_in_{k}" := by
  induction subselects generalizing place with
  | nil => rfl
  | cons s rest ih =>
    rw [numbered, map_cons, ih, length_cons, range'_succ, map_cons]

theorem nodup_names_numbered (place : Nat) (subselects : List Subselect) :
    ((numbered place subselects).map (·.name)).Nodup := by
  rw [map_name_numbered]
  refine Nodup.map (fun j k h => ?_) nodup_range'
  exact toString_nat_injective ((String.append_right_inj _).mp h)

/-- Where names are different, the name of an entry is the name of no other one. -/
theorem filter_name_eq_singleton (hnames : (entries.map (·.name)).Nodup) (hn : n ∈ entries) :
    entries.filter (·.name == n.name) = [n] := by
  induction entries with
  | nil => exact absurd hn not_mem_nil
  | cons first rest ih =>
    obtain ⟨hfirst, hrest⟩ := nodup_cons.mp hnames
    rcases mem_cons.mp hn with rfl | hn
    · have hnone : rest.filter (·.name == n.name) = [] := by
        refine filter_eq_nil_iff.mpr fun m hm heq => hfirst ?_
        exact mem_map.mpr ⟨m, hm, eq_of_beq heq⟩
      rw [filter_cons, if_pos (beq_self_eq_true _), hnone]
    · have hne : ¬(first.name == n.name) = true := fun heq =>
        hfirst (mem_map.mpr ⟨n, hn, (eq_of_beq heq).symm⟩)
      rw [filter_cons, if_neg hne, ih hrest hn]

/-- The sub-select that entries keep under a name. -/
def keptUnder (entries : List NestedList) (name : String) : Option Subselect :=
  (entries.find? (·.name == name)).map (·.subselect)

theorem keptUnder_of_mem (hnames : (entries.map (·.name)).Nodup) (hn : n ∈ entries) :
    keptUnder entries n.name = some n.subselect := by
  rw [keptUnder, ← head?_filter, filter_name_eq_singleton hnames hn]
  rfl

theorem keptUnder_of_not_mem {name : String} (h : name ∉ entries.map (·.name)) :
    keptUnder entries name = none := by
  rw [keptUnder, Option.map_eq_none_iff, find?_eq_none]
  exact fun n hn heq => h (mem_map.mpr ⟨n, hn, eq_of_beq heq⟩)

/-! ### References -/

mutual

/-- The fields of sub-selects that terms of a condition are looked for in, from left to right. -/
def Condition.nestedNames : Condition → List String
  | .all cs => nestedNamesOf cs
  | .any cs => nestedNamesOf cs
  | .member _ (.nested name) _ => [name]
  | _ => []

/-- The same of conditions. -/
def nestedNamesOf : List Condition → List String
  | [] => []
  | c :: cs => c.nestedNames ++ nestedNamesOf cs

end

mutual

theorem Condition.hasNested_eq : ∀ c : Condition, c.hasNested = !c.nestedNames.isEmpty
  | .all cs | .any cs => by
    rw [Condition.hasNested, Condition.nestedNames, anyHasNested_eq cs]
  | .member _ (.nested _) _ | .member _ (.list _) _ | .member _ (.subselect _) _ => rfl
  | .compare .. | .isNull .. | .between .. | .like .. | .truth .. => rfl

theorem anyHasNested_eq : ∀ cs : List Condition, anyHasNested cs = !(nestedNamesOf cs).isEmpty
  | [] => rfl
  | c :: cs => by
    rw [anyHasNested, nestedNamesOf, Condition.hasNested_eq c, anyHasNested_eq cs]
    cases c.nestedNames <;> rfl

end

mutual

theorem Condition.nestedNames_of_looks : ∀ {c : Condition}, c.Looks Members.Unnested →
    c.nestedNames = []
  | .all _, h | .any _, h => by
    rw [Condition.nestedNames, nestedNamesOf_of_allLook h]
  | .member _ (.nested _) _, h => h.2.1.elim
  | .member _ (.list _) _, _ | .member _ (.subselect _) _, _ => rfl
  | .compare .., _ | .isNull .., _ | .between .., _ | .like .., _ | .truth .., _ => rfl

theorem nestedNamesOf_of_allLook : ∀ {cs : List Condition}, AllLook Members.Unnested cs →
    nestedNamesOf cs = []
  | [], _ => rfl
  | _ :: _, h => by
    rw [nestedNamesOf, Condition.nestedNames_of_looks h.1, nestedNamesOf_of_allLook h.2, append_nil]

end

mutual

/-- Puts sub-selects in the place of the names of their fields, as far as they are known. -/
def Condition.restored (known : String → Option Subselect) : Condition → Condition
  | .all cs => .all (restoredAll known cs)
  | .any cs => .any (restoredAll known cs)
  | .member t (.nested name) negated =>
    match known name with
    | some s => .member t (.subselect s) negated
    | none => .member t (.nested name) negated
  | c => c

/-- The same in conditions. -/
def restoredAll (known : String → Option Subselect) : List Condition → List Condition
  | [] => []
  | c :: cs => c.restored known :: restoredAll known cs

end

/-! ### Conditions with names for sub-selects -/

/-- The condition is neither joined from others nor about a sub-select. -/
def Condition.isSettled : Condition → Bool
  | .all _ | .any _ | .member _ (.subselect _) _ => false
  | _ => true

mutual

/-- The second condition is the first one with the names of entries for its sub-selects: one entry
for each sub-select, in their order from left to right, and everything else as it was. -/
inductive Condition.Replaced : Condition → List NestedList → Condition → Prop
  | all {cs cs' : List Condition} {entries : List NestedList} (parts : ReplacedAll cs entries cs') :
    Condition.Replaced (.all cs) entries (.all cs')
  | any {cs cs' : List Condition} {entries : List NestedList} (parts : ReplacedAll cs entries cs') :
    Condition.Replaced (.any cs) entries (.any cs')
  | subselect (t : Term) (n : NestedList) (negated : Bool) :
    Condition.Replaced (.member t (.subselect n.subselect) negated) [n]
      (.member t (.nested n.name) negated)
  | settled {c : Condition} (h : c.isSettled = true) : Condition.Replaced c [] c

/-- The same of conditions one after the other. -/
inductive ReplacedAll : List Condition → List NestedList → List Condition → Prop
  | nil : ReplacedAll [] [] []
  | cons {c c' : Condition} {cs cs' : List Condition} {entries entries' : List NestedList}
    (first : Condition.Replaced c entries c') (rest : ReplacedAll cs entries' cs') :
    ReplacedAll (c :: cs) (entries ++ entries') (c' :: cs')

end

mutual

theorem Condition.replaced_registerNested : ∀ (c : Condition) (s : Scope),
    c.Replaced (numbered s.nested.length c.subselects) (c.registerNested s).1
  | .all cs, s => by
    rw [Condition.subselects]
    exact .all (replacedAll_registerAll cs s)
  | .any cs, s => by
    rw [Condition.subselects]
    exact .any (replacedAll_registerAll cs s)
  | .member t (.subselect sub) negated, s =>
    .subselect t ⟨s!"_nested_in_{s.nested.length}", sub⟩ negated
  | .member _ (.list _) _, _ | .member _ (.nested _) _, _ => .settled rfl
  | .compare .., _ | .isNull .., _ | .between .., _ | .like .., _ | .truth .., _ => .settled rfl

theorem replacedAll_registerAll : ∀ (cs : List Condition) (s : Scope),
    ReplacedAll cs (numbered s.nested.length (subselectsOf cs)) (registerAll cs s).1
  | [], _ => .nil
  | c :: cs, s => by
    rw [subselectsOf, numbered_append]
    refine .cons (c.replaced_registerNested s) ?_
    -- the next sub-selects are numbered on behind those of the first condition
    have hlength :
        (c.registerNested s).2.nested.length = s.nested.length + c.subselects.length := by
      rw [c.scope_registerNested, length_append, length_numbered]
    exact hlength ▸ replacedAll_registerAll cs (c.registerNested s).2

end

mutual

theorem Condition.Replaced.subselects_eq_nil : ∀ {c c' : Condition} {entries : List NestedList},
    c.Replaced entries c' → c'.subselects = []
  | _, _, _, .all h | _, _, _, .any h => by rw [Condition.subselects, h.subselectsOf_eq_nil]
  | _, _, _, .subselect .. => rfl
  | .member _ (.list _) _, _, _, .settled _ | .member _ (.nested _) _, _, _, .settled _ => rfl
  | .compare .., _, _, .settled _ | .isNull .., _, _, .settled _ | .between .., _, _, .settled _
  | .like .., _, _, .settled _ | .truth .., _, _, .settled _ => rfl

theorem ReplacedAll.subselectsOf_eq_nil : ∀ {cs cs' : List Condition} {entries : List NestedList},
    ReplacedAll cs entries cs' → subselectsOf cs' = []
  | _, _, _, .nil => rfl
  | _, _, _, .cons first rest => by
    rw [subselectsOf, first.subselects_eq_nil, rest.subselectsOf_eq_nil, append_nil]

end

mutual

/-- A condition without references gets those to the entries, in their order. -/
theorem Condition.Replaced.nestedNames_eq : ∀ {c c' : Condition} {entries : List NestedList},
    c.Replaced entries c' → c.nestedNames = [] → c'.nestedNames = entries.map (·.name)
  | _, _, _, .all h, hnone | _, _, _, .any h, hnone => by
    rw [Condition.nestedNames] at hnone ⊢
    exact h.nestedNamesOf_eq hnone
  | _, _, _, .subselect .., _ => rfl
  | _, _, _, .settled _, hnone => hnone

theorem ReplacedAll.nestedNamesOf_eq : ∀ {cs cs' : List Condition} {entries : List NestedList},
    ReplacedAll cs entries cs' → nestedNamesOf cs = [] →
    nestedNamesOf cs' = entries.map (·.name)
  | _, _, _, .nil, _ => rfl
  | _, _, _, .cons first rest, hnone => by
    rw [nestedNamesOf, append_eq_nil_iff] at hnone
    rw [nestedNamesOf, first.nestedNames_eq hnone.1, rest.nestedNamesOf_eq hnone.2, map_append]

end

mutual

/-- Putting the sub-selects back gives the first condition, where what is known tells the names of
the entries from those that stood in it before. -/
theorem Condition.Replaced.restored_eq {known : String → Option Subselect} :
    ∀ {c c' : Condition} {entries : List NestedList}, c.Replaced entries c' →
    (∀ n ∈ entries, known n.name = some n.subselect) →
    (∀ name ∈ c.nestedNames, known name = none) → c'.restored known = c
  | _, _, _, .all h, hentries, hown | _, _, _, .any h, hentries, hown => by
    rw [Condition.nestedNames] at hown
    rw [Condition.restored, h.restoredAll_eq hentries hown]
  | _, _, _, .subselect t n negated, hentries, _
  | .member _ (.nested n) _, _, _, .settled _, _, hentries => by
    rw [Condition.restored, hentries n (mem_singleton_self n)]
  | .member _ (.list _) _, _, _, .settled _, _, _ => rfl
  | .compare .., _, _, .settled _, _, _ | .isNull .., _, _, .settled _, _, _
  | .between .., _, _, .settled _, _, _ | .like .., _, _, .settled _, _, _
  | .truth .., _, _, .settled _, _, _ => rfl

theorem ReplacedAll.restoredAll_eq {known : String → Option Subselect} :
    ∀ {cs cs' : List Condition} {entries : List NestedList}, ReplacedAll cs entries cs' →
    (∀ n ∈ entries, known n.name = some n.subselect) →
    (∀ name ∈ nestedNamesOf cs, known name = none) → restoredAll known cs' = cs
  | _, _, _, .nil, _, _ => rfl
  | _, _, _, .cons first rest, hentries, hown => by
    obtain ⟨hfirst, hrest⟩ := forall_mem_append.mp hentries
    obtain ⟨hownFirst, hownRest⟩ := forall_mem_append.mp hown
    rw [restoredAll, first.restored_eq hfirst hownFirst, rest.restoredAll_eq hrest hownRest]

end

/-- What it means that the sub-selects of a condition are registered under numbers from a place on,
and that nothing is lost: the entries are its sub-selects in their order, and a second condition has
their names in the places of the sub-selects. -/
structure Condition.Registered (c : Condition) (place : Nat) (entries : List NestedList)
    (c' : Condition) : Prop where
  subselects : entries.map (·.subselect) = c.subselects
  names : entries.map (·.name) = (range' place entries.length).map fun k => s!"_nested_in_{k}"
  distinct : (entries.map (·.name)).Nodup
  none_left : c'.subselects = []
  replaced : c.Replaced entries c'
  /-- A name that stood in the condition before must not be mistaken for one of the new ones. -/
  restored : (∀ name ∈ c.nestedNames, name ∉ entries.map (·.name)) →
    c'.restored (keptUnder entries) = c

theorem Condition.registered_registerNested (c : Condition) (s : Scope) :
    c.Registered s.nested.length (numbered s.nested.length c.subselects)
      (c.registerNested s).1 where
  subselects := map_subselect_numbered _ _
  names := by rw [map_name_numbered, length_numbered]
  distinct := nodup_names_numbered _ _
  none_left := (c.replaced_registerNested s).subselects_eq_nil
  replaced := c.replaced_registerNested s
  restored hown := (c.replaced_registerNested s).restored_eq
    (fun _ hn => keptUnder_of_mem (nodup_names_numbered _ _) hn)
    fun name hname => keptUnder_of_not_mem (hown name hname)

/-! ### Queries -/

/-- The sub-selects of a WHERE clause are registered behind those of its scope, and its condition
refers to these only. -/
theorem Filter.registered_of_read {r : Reading} {c after : TokenCursor} {scope : Scope}
    (h : Filter.read? r c = .ok (some filter, scope, after)) :
    ∃ afterWhere condition entries, c.eat? .WHERE = some afterWhere ∧
      Reading.condition { r with aliases := false } (afterWhere.takeUntil isClauseKeyword).1 =
        .ok condition ∧
      scope = { r.scope with nested := r.scope.nested ++ entries } ∧
      condition.Registered r.scope.nested.length entries filter.condition ∧
      condition.nestedNames = [] ∧
      filter.condition.nestedNames = entries.map (·.name) := by
  obtain ⟨hnone, -⟩ | ⟨afterWhere, condition, heat, hcondition, -, hfilter, rfl⟩ :=
    Filter.read?_eq_ok h
  · cases hnone
  · cases hfilter
    have hown := Condition.nestedNames_of_looks (Reading.unnested_condition hcondition)
    have hregistered := condition.registered_registerNested r.scope
    exact ⟨afterWhere, condition, _, heat, hcondition, condition.scope_registerNested r.scope,
      hregistered, hown, hregistered.replaced.nestedNames_eq hown⟩

namespace Select

variable {subselect : List Token → Compiled Subselect} {scope : Scope} {tokens : List Token}
  {q : Select}

/-- The stages of a pipeline up to the one of WHERE. -/
theorem stages_through_filter {stages : List Value} (hfilter : q.filter = some filter)
    (h : q.pipeline = .ok stages) : ∃ test after, filter.condition.filter = .ok test ∧
      stages = q.joins.flatMap Join.stages ++ q.nested.flatMap NestedList.stages ++
        .field "$match" test :: after := by
  obtain ⟨parts, rfl⟩ := parts_of_pipeline h
  have hstages := parts.filter_eq
  rw [hfilter] at hstages
  obtain ⟨test, htest, hstages⟩ := Compiled.bind_eq_ok.mp hstages
  refine ⟨test, parts.grouping ++ parts.having ++ parts.distinct ++ parts.sorting ++ parts.window ++
    parts.last, htest, ?_⟩
  rw [PipelineParts.stages, ← Except.ok.inj hstages]
  simp only [append_assoc, cons_append, nil_append]

/-- Each entry of a query has its two stages before the one of WHERE. -/
theorem stages_before_filter {stages : List Value} (hfilter : q.filter = some filter)
    (h : q.pipeline = .ok stages) (hn : n ∈ q.nested) :
    ∃ before between test after, filter.condition.filter = .ok test ∧
      stages = before ++ n.stages ++ between ++ .field "$match" test :: after := by
  obtain ⟨test, after, htest, rfl⟩ := stages_through_filter hfilter h
  obtain ⟨earlier, later, hnested⟩ := append_of_mem hn
  refine ⟨q.joins.flatMap Join.stages ++ earlier.flatMap NestedList.stages,
    later.flatMap NestedList.stages, test, after, htest, ?_⟩
  simp [hnested]

theorem needsPipeline_of_mem (hn : n ∈ q.nested) : q.needsPipeline = true := by
  have hnested : q.nested.isEmpty = false := isEmpty_eq_false_iff.mpr (ne_nil_of_mem hn)
  simp [needsPipeline, hnested]

/-- What a query with a WHERE clause has put aside: its entries are the sub-selects of the clause,
from number 0 on.  Each reference names one of them, whose field is filled before the clause tests
it. -/
structure Registers (q : Select) (filter : Filter) : Prop where
  registered : ∃ condition : Condition, condition.Registered 0 q.nested filter.condition
  references : filter.condition.nestedNames = q.nested.map (·.name)
  filled_before : ∀ name ∈ filter.condition.nestedNames,
    ∃ n, q.nested.filter (·.name == name) = [n] ∧ q.needsPipeline = true ∧
      ∀ stages, q.pipeline = .ok stages →
        ∃ before between test after, filter.condition.filter = .ok test ∧
          stages = before ++ n.stages ++ between ++ .field "$match" test :: after

section

variable {params : List Value}

theorem nested_of_filter_none (h : Select.read subselect { params } tokens = .ok q)
    (hnone : q.filter = none) : q.nested = [] := by
  obtain ⟨course⟩ := course_of_read h
  obtain ⟨-, hscope, -⟩ | ⟨_, _, -, -, -, hsome, -⟩ := Filter.read?_eq_ok course.filter_eq
  · rw [course.nested_eq, hscope]
    exact course.nested_before
  · rw [hnone] at hsome
    cases hsome

theorem registers_of_read (h : Select.read subselect { params } tokens = .ok q)
    (hfilter : q.filter = some filter) : q.Registers filter := by
  obtain ⟨course⟩ := course_of_read h
  have hbefore : (course.columns.enter course.tables).nested = [] := course.nested_before
  obtain ⟨-, condition, entries, -, -, hscope, hregistered, -, hnames⟩ :=
    Filter.registered_of_read (hfilter ▸ course.filter_eq)
  obtain rfl : q.nested = entries := by rw [course.nested_eq, hscope, hbefore, nil_append]
  rw [hbefore] at hregistered
  refine ⟨⟨condition, hregistered⟩, hnames, fun name hname => ?_⟩
  rw [hnames] at hname
  obtain ⟨n, hn, rfl⟩ := mem_map.mp hname
  exact ⟨n, filter_name_eq_singleton hregistered.distinct hn, needsPipeline_of_mem hn,
    fun _ hstages => stages_before_filter hfilter hstages hn⟩

end

end Select

/-- **Sub-selects are registered without loss.**  For every condition and scope, the sub-selects are
put aside behind the entries that are there, one entry each, under numbers that go on from their
count, and the condition has the names in their places and is otherwise as it was.  A WHERE clause
is registered like this from the condition that it is read as, which the entries give back, and has
references exactly if it has put something aside.  In every query that is read, on its own or as a
sub-select, only WHERE puts something aside, and each of its references names one entry, which is
filled before the test. -/
theorem subselects_registered (c : Condition) (s : Scope) :
    (∃ entries, (c.registerNested s).2 = { s with nested := s.nested ++ entries } ∧
      c.Registered s.nested.length entries (c.registerNested s).1) ∧
    (∀ r start filter scope after, Filter.read? r start = .ok (some filter, scope, after) →
      ∃ afterWhere condition entries, start.eat? .WHERE = some afterWhere ∧
        Reading.condition { r with aliases := false } (afterWhere.takeUntil isClauseKeyword).1 =
          .ok condition ∧
        scope = { r.scope with nested := r.scope.nested ++ entries } ∧
        condition.Registered r.scope.nested.length entries filter.condition ∧
        filter.condition.restored (keptUnder entries) = condition ∧
        (filter.condition.hasNested = true ↔ entries ≠ [])) ∧
    ∀ subselect params tokens q, Select.read subselect { params } tokens = .ok q →
      (q.filter = none → q.nested = []) ∧
      ∀ filter, q.filter = some filter → q.Registers filter := by
  refine ⟨⟨_, c.scope_registerNested s, c.registered_registerNested s⟩, ?_, ?_⟩
  · intro r start filter scope after h
    obtain ⟨afterWhere, condition, entries, heat, hread, hscope, hregistered, hown, hnames⟩ :=
      Filter.registered_of_read h
    refine ⟨afterWhere, condition, entries, heat, hread, hscope, hregistered,
      hregistered.restored ?_, ?_⟩
    · rw [hown]
      exact List.forall_mem_nil _
    · rw [Condition.hasNested_eq, hnames]
      simp
  · intro subselect params tokens q h
    exact ⟨Select.nested_of_filter_none h, fun _ => Select.registers_of_read h⟩

namespace Select.Sample

/-- A query with two sub-selects, of which one is for a condition that is negated. -/
def twoLists : List Token := [.keyword .SELECT, .name none "a", .keyword .FROM, .name none "t",
    .keyword .WHERE, .name none "a", .keyword .IN,
    .paren [.keyword .SELECT, .name none "b", .keyword .FROM, .name none "u"],
    .keyword .AND, .name none "c", .keyword .NOT, .keyword .IN,
    .paren [.keyword .SELECT, .name none "d", .keyword .FROM, .name none "v"]]

set_option maxRecDepth 8000 in
theorem compile_twoLists : (Select.compile [] twoLists).toOption.map
    (fun q => (q.filter.map (·.condition.nestedNames), q.nested.map (·.subselect.collection),
      q.pipeline.toOption.isSome)) =
      some (some ["_nested_in_0", "_nested_in_1"], ["u", "v"], true) := by
  with_unfolding_all rfl

/-- The second reference names the second sub-select, which is looked up before the test. -/
theorem twoLists_registered : ∃ q filter stages n, Select.compile [] twoLists = .ok q ∧
    q.filter = some filter ∧ q.pipeline = .ok stages ∧
    filter.condition.nestedNames = ["_nested_in_0", "_nested_in_1"] ∧
    q.nested.map (·.subselect.collection) = ["u", "v"] ∧
    q.nested.filter (·.name == "_nested_in_1") = [n] ∧
    ∃ before between test after, filter.condition.filter = .ok test ∧
      stages = before ++ n.stages ++ between ++ .field "$match" test :: after := by
  obtain ⟨q, hq, hfacts⟩ := Option.map_eq_some_iff.mp compile_twoLists
  have hq := Compiled.toOption_eq_some.mp hq
  simp only [Prod.mk.injEq] at hfacts
  obtain ⟨hnames, hcollections, hsome⟩ := hfacts
  obtain ⟨filter, hfilter, hnames⟩ := Option.map_eq_some_iff.mp hnames
  obtain ⟨stages, hstages⟩ := Option.isSome_iff_exists.mp hsome
  have hstages := Compiled.toOption_eq_some.mp hstages
  obtain ⟨-, -, hqueries⟩ := subselects_registered (.all []) { params := [] }
  have hread := hq
  rw [Select.compile] at hread
  obtain ⟨-, -, hfilled⟩ := (hqueries _ _ _ q hread).2 filter hfilter
  obtain ⟨n, hn, -, hbefore⟩ := hfilled "_nested_in_1" (by rw [hnames]; decide)
  exact ⟨q, filter, stages, n, hq, hfilter, hstages, hnames, hcollections, hn,
    hbefore stages hstages⟩

end Select.Sample
end DocSql
