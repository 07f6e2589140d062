import DocSql.Clause.Having
import DocSql.Clause.Sorting
import DocSql.Proofs.FreshNames
import DocSql.Proofs.Steps

/-! # What an alias stands for

An alias of the SELECT list is looked up in two ways.  GROUP BY takes the term that the scope has under
it, which is that of the last item that declares it.  ORDER BY and HAVING take the first item whose
name or alias it is, and that is the item under whose name the result holds a value.

The two are the same, and the item declares the alias, exactly if no item before the first that
declares it has the name already, and the first and the last have the same term
(`alias_agrees_iff`).
-/
namespace DocSql
open Compiled List

variable {r : Reading} {after : List SelectItem}

/-! ### Entries that are written one after the other -/

/-- Of entries under one name the last one stays. -/
theorem Entries.get?_insertAll {α : Type} (es new : Entries α) (key : String) :
    (es.insertAll new).get? key =
      ((new.reverse.find? fun e => e.1 == key).map (·.2)).or (es.get? key) := by
  induction new generalizing es with
  | nil => rfl
  | cons e new ih =>
    show ((es.insert e.1 e.2).insertAll new).get? key = _
    rw [ih, reverse_cons, find?_append]
    cases hlast : new.reverse.find? fun e => e.1 == key with
    | some e' => rfl
    | none =>
      by_cases hkey : e.1 = key
      · simp [← hkey]
      · simp [hkey, Entries.get?_insert_of_ne]

/-! ### Items and their names -/

/-- An item that declares an alias has it for its name, unless the name is taken before it. -/
theorem SelectItem.name_of_label {a : String} {item : SelectItem} (hlabel : item.label = some a) :
    ∀ {pieces : List (List Token)} {before : List SelectItem} {taken : List String} {place : Nat},
      readAll r taken place pieces = .ok (before ++ item :: after) → a ∉ taken →
        (∀ other ∈ before, other.name ≠ a) → item.name = a
  | [], before, _, _, h, _, _ => by simp [readAll] at h
  | piece :: pieces, before, taken, place, h, htaken, hbefore => by
    obtain ⟨⟨t, label⟩, -, h⟩ := bind_eq_ok.mp h
    obtain ⟨term, -, h⟩ := bind_eq_ok.mp h
    obtain ⟨rest, hrest, h⟩ := bind_eq_ok.mp h
    have hitems := Except.ok.inj h
    cases before with
    | nil =>
      obtain ⟨rfl, rfl⟩ := cons.inj hitems
      obtain rfl : label = some a := hlabel
      exact freshName_of_not_mem htaken
    | cons first before =>
      obtain ⟨rfl, rfl⟩ := cons.inj hitems
      obtain ⟨hfirst, hbefore⟩ := forall_mem_cons.mp hbefore
      refine name_of_label hlabel hrest ?_ hbefore
      rw [mem_cons]
      rintro (heq | hmem)
      · exact hfirst heq.symm
      · exact htaken hmem

namespace Columns

variable {columns : Columns} {a : String}
variable {named : SelectItem}

/-- The last item that declares an alias. -/
def lastLabelled? (columns : Columns) (a : String) : Option SelectItem :=
  columns.items.reverse.find? fun item => item.label == some a

/-- In the scope of the list an alias stands for the term of the last item that declares it. -/
theorem get?_aliases_enter (columns : Columns) (s : Scope) (a : String) :
    (columns.enter s).aliases.get? a =
      ((columns.lastLabelled? a).map (·.term)).or (s.aliases.get? a) := by
  have hfind (items : List SelectItem) :
      ((items.filterMap fun item => item.label.map fun label => (label, item.term)).find?
        fun e => e.1 == a).map (·.2) =
      (items.find? fun item => item.label == some a).map (·.term) := by
    induction items with
    | nil => rfl
    | cons item items ih =>
      rw [filterMap_cons, find?_cons]
      cases item.label with
      | none => exact ih
      | some label =>
        by_cases heq : label = a
        · simp [heq]
        · simp only [Option.map_some, find?_cons, beq_eq_false_iff_ne.mpr heq,
            Option.some_beq_some, ih]
  rw [enter, Entries.get?_insertAll, ← filterMap_reverse, hfind, lastLabelled?]

theorem exists_lastLabelled (ha : ∃ item ∈ columns.items, item.label = some a) :
    ∃ last, columns.lastLabelled? a = some last := by
  obtain ⟨item, hitem, hlabel⟩ := ha
  rw [← Option.isSome_iff_exists, lastLabelled?, find?_isSome]
  exact ⟨item, mem_reverse.mpr hitem, by simp [hlabel]⟩

theorem exists_firstLabelled (ha : ∃ item ∈ columns.items, item.label = some a) :
    ∃ before first after, columns.items = before ++ first :: after ∧ first.label = some a ∧
      ∀ item ∈ before, item.label ≠ some a := by
  obtain ⟨item, hitem, hlabel⟩ := ha
  obtain ⟨first, hfirst⟩ : ∃ first, (columns.items.find? fun i => i.label == some a) = some first := by
    rw [← Option.isSome_iff_exists, find?_isSome]
    exact ⟨item, hitem, by simp [hlabel]⟩
  obtain ⟨hsome, before, after, hitems, hnone⟩ := find?_eq_some_iff_append.mp hfirst
  exact ⟨before, first, after, hitems, by simpa using hsome, fun i hi => by simpa using hnone i hi⟩

/-- The items before the first that declares an alias are known from the list. -/
theorem takeWhile_unlabelled {before : List SelectItem} {first : SelectItem}
    (hitems : columns.items = before ++ first :: after) (hfirst : first.label = some a)
    (hbefore : ∀ item ∈ before, item.label ≠ some a) :
    columns.items.takeWhile (fun item => item.label != some a) = before := by
  rw [hitems, takeWhile_append_of_pos fun item hitem => bne_iff_ne.mpr (hbefore item hitem),
    takeWhile_cons_of_neg (by simp [hfirst]), append_nil]

theorem byName?_eq_some_iff : columns.byName? a = some named ↔
    (named.name = a ∨ named.label = some a) ∧ ∃ before after,
      columns.items = before ++ named :: after ∧
        ∀ item ∈ before, item.name ≠ a ∧ item.label ≠ some a := by
  rw [byName?, find?_eq_some_iff_append]
  simp

theorem exists_byName (ha : ∃ item ∈ columns.items, item.label = some a) :
    ∃ named, columns.byName? a = some named := by
  obtain ⟨item, hitem, hlabel⟩ := ha
  rw [← Option.isSome_iff_exists, byName?, find?_isSome]
  exact ⟨item, hitem, by simp [hlabel]⟩

/-- The item that is found by an alias is the one under whose name the result holds a value. -/
theorem name_of_byName {tokens : List Token} {start : Nat}
    (h : Columns.read r tokens start = .ok columns) (hnamed : columns.byName? a = some named) :
    named.name = a := by
  obtain ⟨hname | hlabel, before, after, hitems, hbefore⟩ := byName?_eq_some_iff.mp hnamed
  · exact hname
  rw [Columns.read] at h
  split at h
  · cases h
  · obtain ⟨items, hread, rfl⟩ := bind₁_eq_ok.mp h
    obtain rfl : items = before ++ named :: after := hitems
    exact SelectItem.name_of_label hlabel hread not_mem_nil fun item hitem =>
      (hbefore item hitem).1

/-- How the clauses read an alias, where GROUP BY takes the term `key` and the others take the item
`named`. -/
structure ReadsAlias (columns : Columns) (r : Reading) (a : String) (key : Term)
    (named : SelectItem) : Prop where
  scope : (columns.enter r.scope).aliases.get? a = some key
  /-- A bare name is the alias in every clause behind the list; a star is no name. -/
  token : a ≠ "*" →
    { r with scope := columns.enter r.scope, aliases := true }.resolveOne [.name none a] =
      .ok (.field a)
  groupBy : a ≠ "*" → Grouping.keyTerm { r with scope := columns.enter r.scope } [.name none a] =
      if key.containsAggregate then undecodable .aggregateInGroupBy else .ok key
  orderPlain : Sorting.plainTerm columns (.field a) = .ok named.term
  orderDistinct : Sorting.distinctItem columns (.field a) = .ok named
  orderGrouped : ∀ g, (Grouping.expose columns (.field a)).run g = .ok (named.name, g)
  having : ∀ g, (Grouping.exposeNode columns (.field a)).run g = .ok (some (.field named.name), g)

theorem readsAlias {last : SelectItem} (hlast : columns.lastLabelled? a = some last)
    (hnamed : columns.byName? a = some named) : columns.ReadsAlias r a last.term named := by
  have hscope : (columns.enter r.scope).aliases.get? a = some last.term := by
    rw [get?_aliases_enter, hlast]
    rfl
  have htoken (ha : a ≠ "*") :
      { r with scope := columns.enter r.scope, aliases := true }.resolveOne [.name none a] =
        .ok (.field a) := by
    simp [Reading.resolveOne, Reading.resolve, Reading.name, ha, Entries.contains, hscope]
  have hname : columns.byName a = .ok named := by rw [byName, hnamed]
  have hexpose (g : Grouping) : (Grouping.expose columns (.field a)).run g = .ok (named.name, g) := by
    rw [Grouping.expose, hname]
    rfl
  refine ⟨hscope, htoken, fun ha => ?_, ?_, ?_, hexpose, fun g => ?_⟩
  · rw [Grouping.keyTerm, htoken ha]
    simp [hscope]
  · simp [Sorting.plainTerm, hname]
  · simp [Sorting.distinctItem, hnamed]
  · have hknows : g.knows columns (.field a) = true := by simp [Grouping.knows, Term.fieldPath?]
    show (if g.knows columns (.field a) then _ else _ : Planning (Option Term)).run g = _
    rw [if_pos hknows]
    show ((Grouping.expose columns (.field a)).run g >>= fun x => _) = _
    rw [hexpose]
    rfl

/-- **An alias means the same in every clause, where its name is free.**  For each alias of an accepted
list, GROUP BY takes the term of the last item that declares it, and ORDER BY and HAVING take one item
`named`, whose value the result holds under the alias.  That item declares the alias and has the term
of GROUP BY exactly if no item before the first that declares the alias has the name already, and the
first and the last that declare it have the same term. -/
theorem alias_agrees_iff {r : Reading} {tokens : List Token} {start : Nat} {columns : Columns}
    {a : String} (h : Columns.read r tokens start = .ok columns)
    (ha : ∃ item ∈ columns.items, item.label = some a) :
    ∃ before first after last named,
      (columns.items = before ++ first :: after ∧ first.label = some a ∧
        ∀ item ∈ before, item.label ≠ some a) ∧
      columns.lastLabelled? a = some last ∧
      (columns.byName? a = some named ∧ named.name = a) ∧
      columns.ReadsAlias r a last.term named ∧
      ((named.label = some a ∧ named.term = last.term) ↔
        (∀ item ∈ before, item.name ≠ a) ∧ first.term = last.term) := by
  obtain ⟨before, first, after, hitems, hfirst, hbefore⟩ := exists_firstLabelled ha
  obtain ⟨last, hlast⟩ := exists_lastLabelled ha
  obtain ⟨named, hnamed⟩ := exists_byName ha
  refine ⟨before, first, after, last, named, ⟨hitems, hfirst, hbefore⟩, hlast,
    ⟨hnamed, name_of_byName h hnamed⟩, readsAlias hlast hnamed, ?_, ?_⟩
  · rintro ⟨hlabel, hterm⟩
    -- nothing before the item that is found declares the alias, so it is the first that does
    obtain ⟨-, before', after', hitems', hbefore'⟩ := byName?_eq_some_iff.mp hnamed
    obtain rfl : before = before' :=
      (takeWhile_unlabelled hitems hfirst hbefore).symm.trans
        (takeWhile_unlabelled hitems' hlabel fun item hitem => (hbefore' item hitem).2)
    obtain ⟨rfl, rfl⟩ := List.cons.inj (List.append_cancel_left (hitems.symm.trans hitems'))
    exact ⟨fun item hitem => (hbefore' item hitem).1, hterm⟩
  · rintro ⟨hfree, hterm⟩
    have hfound : columns.byName? a = some first := byName?_eq_some_iff.mpr
      ⟨.inr hfirst, before, after, hitems, fun item hitem => ⟨hfree item hitem, hbefore item hitem⟩⟩
    obtain rfl := Option.some.inj (hfound.symm.trans hnamed)
    exact ⟨hfirst, hterm⟩

end Columns

namespace Columns.Sample

/-- How a list is read from one table. -/
def oneTable : Reading where
  scope := { params := [], tables := [("t", "t")], left := some "t" }
  aliases := false
  subselect _ := undecodable .expectedSelect

/-- A list in which a column has the alias of another one for its name. -/
def takenName : List Token := [.name none "a", .punctuation ',', .aliased (.name none "b") "a"]

theorem read_takenName : Columns.read oneTable takenName 1 =
    .ok { items := [⟨.column ⟨"t", "a", "a"⟩, "a", none⟩,
            ⟨.column ⟨"t", "b", "b"⟩, "a_1", some "a"⟩], span := ⟨1, 4⟩ } := by
  with_unfolding_all rfl

/-- GROUP BY groups on one column, and ORDER BY and HAVING read another, which does not declare the
alias. -/
theorem takenName_disagrees : ∃ columns last named,
    Columns.read oneTable takenName 1 = .ok columns ∧
    columns.lastLabelled? "a" = some last ∧ columns.byName? "a" = some named ∧
    columns.ReadsAlias oneTable "a" last.term named ∧
    last.term = .column ⟨"t", "b", "b"⟩ ∧ named.term = .column ⟨"t", "a", "a"⟩ ∧
    ¬(named.label = some "a" ∧ named.term = last.term) := by
  obtain ⟨before, first, after, last, named, ⟨hitems, hfirst, -⟩, hlast, ⟨hnamed, -⟩, hreads, hiff⟩ :=
    alias_agrees_iff read_takenName (a := "a") ⟨_, List.mem_cons_of_mem _ List.mem_cons_self, rfl⟩
  refine ⟨_, last, named, read_takenName, hlast, hnamed, hreads, ?_, ?_, ?_⟩
  · cases hlast
    rfl
  · cases hnamed
    rfl
  · intro hagree
    obtain ⟨hfree, -⟩ := hiff.mp hagree
    cases before with
    | nil =>
      obtain ⟨rfl, -⟩ := List.cons.inj hitems
      cases hfirst
    | cons item before =>
      obtain ⟨rfl, -⟩ := List.cons.inj hitems
      exact hfree _ List.mem_cons_self rfl

end Columns.Sample
end DocSql
