import DocSql.Proofs.GroupingReads
import DocSql.Proofs.PlanSteps

/-! # What a grouping fetches from the rows

Behind a grouping there are only the keys and what has been collected, so lowering a term collects
the columns and the aggregates that it comes to.  `Term.fetched` is what these refer to.  This
module proves both directions: what a plan collects has been fetched for one of its terms
(`Planning.Gathers`), and an alias that is fetched for a term which the plan holds an output for is
referred to by what the plan collects, or by a key.
-/
namespace DocSql
open List

/-! ### Fetched references -/

theorem append_subset_append {α : Type} {l l' r r' : List α} (hl : l ⊆ l') (hr : r ⊆ r') :
    l ++ r ⊆ l' ++ r' :=
  append_subset.mpr
    ⟨subset_append_of_subset_left _ hl, subset_append_of_subset_right _ hr⟩

section

variable {into : Bool}

mutual

theorem Term.fetched_subset : ∀ t : Term, t.fetched into ⊆ t.references
  | .column _ | .aggregate .. => Subset.refl _
  | .compare l _ r | .arith _ l r => append_subset_append l.fetched_subset r.fetched_subset
  | .dateTrunc _ arg => by
    rw [Term.fetched]
    split
    · exact arg.fetched_subset
    · exact nil_subset _
  | .caseOf arms => arms.fetched_subset
  | .countAll | .field _ | .param .. | .const _ => nil_subset _

theorem Arms.fetched_subset : ∀ arms : Arms, arms.fetched into ⊆ arms.references
  | .done => nil_subset _
  | .otherwise t => t.fetched_subset
  | .arm c t rest => append_subset_append
    (append_subset_append c.fetched_subset t.fetched_subset) rest.fetched_subset

theorem Condition.fetched_subset : ∀ c : Condition, c.fetched into ⊆ c.references
  | .all cs => fetchedAll_subset cs
  | .any cs => fetchedAll_subset cs
  | .compare l _ r | .like l r _ _ => append_subset_append l.fetched_subset r.fetched_subset
  | .member t _ _ => subset_append_of_subset_left _ t.fetched_subset
  | .isNull t _ => t.fetched_subset
  | .between t low high _ => append_subset_append
    (append_subset_append t.fetched_subset low.fetched_subset) high.fetched_subset
  | .truth t _ => t.fetched_subset

theorem fetchedAll_subset : ∀ cs : List Condition, fetchedAll into cs ⊆ conditionReferences cs
  | [] => nil_subset _
  | c :: cs => append_subset_append c.fetched_subset (fetchedAll_subset cs)

end

variable {name : String}

mutual

/-- The same aliases are fetched for equal terms. -/
theorem Term.Same.field_mem_fetched : ∀ {a b : Term}, a.Same b →
    (.field name ∈ a.fetched into ↔ .field name ∈ b.fetched into)
  | _, _, .column _ | _, _, .countAll | _, _, .field _ | _, _, .param .. | _, _, .const _ => .rfl
  | _, _, .aggregate _ _ ha => ha.field_mem
  | _, _, .compare _ hl hr | _, _, .arith _ hl hr => by
    simp [Term.fetched, hl.field_mem_fetched, hr.field_mem_fetched]
  | _, _, .dateTrunc _ ha => by
    rw [Term.fetched, Term.fetched]
    split
    · exact ha.field_mem_fetched
    · exact .rfl
  | _, _, .caseOf h => Arms.Same.field_mem_fetched h

theorem Arms.Same.field_mem_fetched : ∀ {a b : Arms}, a.Same b →
    (.field name ∈ a.fetched into ↔ .field name ∈ b.fetched into)
  | _, _, .done => .rfl
  | _, _, .otherwise h => Term.Same.field_mem_fetched h
  | _, _, .arm hc ht hrest => by
    simp [Arms.fetched, Condition.Same.field_mem_fetched hc, Term.Same.field_mem_fetched ht,
      hrest.field_mem_fetched]

theorem Condition.Same.field_mem_fetched : ∀ {a b : Condition}, a.Same b →
    (.field name ∈ a.fetched into ↔ .field name ∈ b.fetched into)
  | _, _, .all h | _, _, .any h => SameConditions.field_mem_fetched h
  | _, _, .compare _ hl hr | _, _, .like _ _ hl hr => by
    simp [Condition.fetched, Term.Same.field_mem_fetched hl, Term.Same.field_mem_fetched hr]
  | _, _, .member _ ht _ | _, _, .isNull _ ht | _, _, .truth _ ht => Term.Same.field_mem_fetched ht
  | _, _, .between _ ht hlow hhigh => by
    simp [Condition.fetched, Term.Same.field_mem_fetched ht, Term.Same.field_mem_fetched hlow,
      Term.Same.field_mem_fetched hhigh]

theorem SameConditions.field_mem_fetched : ∀ {a b : List Condition}, SameConditions a b →
    (.field name ∈ fetchedAll into a ↔ .field name ∈ fetchedAll into b)
  | _, _, .nil => .rfl
  | _, _, .cons hc hcs => by
    simp [fetchedAll, Condition.Same.field_mem_fetched hc, hcs.field_mem_fetched]

end

end

/-! ### Fetched references of rewritten terms -/

section

variable {N : Term → Term → Prop} {into within : Bool} {ref : Reference}

/-- A reference is fetched for a node that is replaced. -/
def FetchedAt (N : Term → Term → Prop) (into : Bool) (ref : Reference) : Prop :=
  ∃ t u, N t u ∧ ref ∈ t.fetched into

variable (hinto : into = true → within = true)
include hinto

set_option linter.unusedSectionVars false in
mutual

/-- All that is fetched for a rewritten term is fetched for the nodes that are replaced. -/
theorem Term.Rewritten.fetched :
    ∀ {t u : Term}, Term.Rewritten N within t u → ref ∈ t.fetched into → FetchedAt N into ref
  | _, _, .replaced h, hmem => ⟨_, _, h, hmem⟩
  | _, _, .compare _ hl hr, hmem | _, _, .arith _ hl hr, hmem =>
    (mem_append.mp hmem).elim (hl.fetched) (hr.fetched)
  | _, _, .dateTrunc _ _ ha, hmem => by
    rw [Term.fetched] at hmem
    split at hmem
    · exact ha.fetched hmem
    · cases hmem
  | _, _, .call _ hwithin, hmem => by
    rw [Term.fetched] at hmem
    split at hmem
    · rename_i h
      cases (hinto h).symm.trans hwithin
    · cases hmem
  | _, _, .caseOf h, hmem => Arms.Rewritten.fetched h hmem
  | _, _, .param .., hmem | _, _, .const _, hmem => nomatch hmem

theorem Arms.Rewritten.fetched :
    ∀ {a b : Arms}, Arms.Rewritten N within a b → ref ∈ a.fetched into → FetchedAt N into ref
  | _, _, .done, hmem => nomatch hmem
  | _, _, .otherwise h, hmem => Term.Rewritten.fetched h hmem
  | _, _, .arm hc ht hrest, hmem => by
    rcases mem_append.mp hmem with hmem | hmem
    · exact (mem_append.mp hmem).elim (Condition.Rewritten.fetched hc) (Term.Rewritten.fetched ht)
    · exact hrest.fetched hmem

theorem Condition.Rewritten.fetched :
    ∀ {a b : Condition}, Condition.Rewritten N within a b → ref ∈ a.fetched into →
      FetchedAt N into ref
  | _, _, .all h, hmem | _, _, .any h, hmem => RewrittenAll.fetched h hmem
  | _, _, .compare _ hl hr, hmem | _, _, .like _ _ hl hr, hmem => (mem_append.mp hmem).elim
    (Term.Rewritten.fetched hl) (Term.Rewritten.fetched hr)
  | _, _, .member _ _ h, hmem | _, _, .isNull _ h, hmem
  | _, _, .truth _ h, hmem => Term.Rewritten.fetched h hmem
  | _, _, .between _ ht hlow hhigh, hmem => by
    rcases mem_append.mp hmem with hmem | hmem
    · exact (mem_append.mp hmem).elim (Term.Rewritten.fetched ht) (Term.Rewritten.fetched hlow)
    · exact Term.Rewritten.fetched hhigh hmem

theorem RewrittenAll.fetched :
    ∀ {a b : List Condition}, RewrittenAll N within a b → ref ∈ fetchedAll into a →
      FetchedAt N into ref
  | _, _, .nil, hmem => nomatch hmem
  | _, _, .cons hc hcs, hmem => (mem_append.mp hmem).elim
    (Condition.Rewritten.fetched hc) (hcs.fetched)

end

end

/-! ### What a plan refers to -/

/-- What a collected aggregate refers to. -/
def Collected.references : Collected → List Reference
  | .aggregate call _ => call.references
  | .first _ => []

theorem Collected.From.references {P : Reference → Prop} {source : Collected}
    (h : source.From P) : ∀ ref ∈ source.references, P ref := by
  cases source with
  | aggregate call accumulator => exact h
  | first path => exact nofun

namespace Grouping

variable {g : Grouping}

/-- What the keys of a plan and its collected aggregates refer to. -/
def references (g : Grouping) : List Reference :=
  g.keys.flatMap (·.term.references) ++ g.fields.flatMap (·.source.references)

theorem mem_references {ref : Reference} : ref ∈ g.references ↔
    (∃ key ∈ g.keys, ref ∈ key.term.references) ∨
      ∃ field ∈ g.fields, ref ∈ field.source.references := by
  simp [references]

/-- An alias that is fetched for a term that an output stands for. -/
theorem HoldsSame.field_mem {name label : String} {t : Term} {into : Bool}
    (h : g.HoldsSame name t) (hmem : .field label ∈ t.fetched into) :
    .field label ∈ g.references := by
  obtain ⟨known, hknown, out, -, hlowers⟩ := h
  have hfetched : .field label ∈ known.fetched into := by
    rcases hknown with rfl | hsame
    · exact hmem
    · exact (Term.Same.of_same hsame).field_mem_fetched.mpr hmem
  obtain ⟨node, u, hreplaces, hnode⟩ := (hlowers g (.refl g)).fetched (fun _ => rfl) hfetched
  have hrefers := node.fetched_subset hnode
  rw [mem_references]
  cases hreplaces with
  | key hkey hsame => exact .inl ⟨_, hkey, (Term.Same.of_same hsame).field_mem.mpr hrefers⟩
  | @call field call _ accumulator hfield hsource hsame =>
    refine .inr ⟨field, hfield, ?_⟩
    rw [hsource, Collected.references]
    rcases hsame with rfl | hsame
    · exact hrefers
    · exact (Term.Same.of_same hsame).field_mem.mpr hrefers
  | column => cases mem_singleton.mp hnode

/-- An alias that is fetched for an operand of HAVING. -/
theorem field_mem_of_stands {asked condition : Condition} {label : String}
    (h : Condition.Rewritten g.Stands false asked condition)
    (hmem : .field label ∈ asked.fetched false) : .field label ∈ g.references := by
  obtain ⟨t, u, ⟨name, -, -, hstands⟩, ht⟩ := h.fetched id hmem
  refine (hstands fun other heq => ?_).field_mem ht
  rw [heq] at ht
  cases ht

end Grouping

/-- The keys of an order are held by outputs, unless they are aliases. -/
theorem Sorting.yields_exposeKeys_stands (columns : Columns) : ∀ keys : List SortKey,
    (Grouping.exposing columns).Yields (Sorting.exposeKeys columns keys) fun h _ =>
      ∀ key ∈ keys, (∀ label, key.term ≠ .field label) → ∃ name, h.HoldsSame name key.term
  | [] => .pure fun _ => nofun
  | key :: keys => by
    refine (Grouping.yields_expose columns key.term).bind fun name =>
      (Sorting.yields_exposeKeys_stands columns keys).bind fun fields => .pure ?_
    rintro h hkeys ⟨-, hkey⟩
    exact forall_mem_cons.mpr ⟨fun hfield => ⟨name, hkey hfield⟩, hkeys⟩

end DocSql
