import DocSql.Clause.Grouping
import DocSql.Proofs.Steps

/-! # Rewriting terms while a grouping is planned

A planning step reads and extends the plan of a grouping.  What it yields has to hold in the plan
that the step leaves and in every later one, because the steps after it go on extending the plan.
`Yields` says so, and is closed under sequencing.

A term that is rewritten keeps its shape down to the nodes that are replaced.  `Term.Rewritten`
relates a term and its rewriting by rules, one for each form of a term; its parameter says which
terms may replace which.
-/
namespace DocSql

/-! ### Rewritten terms -/

mutual

/-- The terms that come from a term by replacing nodes as `N` allows, from the outside to the inside.
`into` says whether the argument of a call is rewritten.  A column, a field or an aggregate does not
stay. -/
inductive Term.Rewritten (N : Term → Term → Prop) (into : Bool) : Term → Term → Prop
  | replaced {t u : Term} (h : N t u) : Term.Rewritten N into t u
  | compare {l l' r r' : Term} (op : Comparison) (hl : Term.Rewritten N into l l')
    (hr : Term.Rewritten N into r r') :
    Term.Rewritten N into (.compare l op r) (.compare l' op r')
  | arith {l l' r r' : Term} (op : Arithmetic) (hl : Term.Rewritten N into l l')
    (hr : Term.Rewritten N into r r') : Term.Rewritten N into (.arith op l r) (.arith op l' r')
  | dateTrunc {a a' : Term} (unit : DateUnit) (hinto : into = true)
    (ha : Term.Rewritten N into a a') :
    Term.Rewritten N into (.dateTrunc unit a) (.dateTrunc unit a')
  | call {a : Term} (unit : DateUnit) (hinto : into = false) :
    Term.Rewritten N into (.dateTrunc unit a) (.dateTrunc unit a)
  | caseOf {arms arms' : Arms} (h : Arms.Rewritten N into arms arms') :
    Term.Rewritten N into (.caseOf arms) (.caseOf arms')
  | param (index : Nat) (v : Value) : Term.Rewritten N into (.param index v) (.param index v)
  | const (v : Value) : Term.Rewritten N into (.const v) (.const v)

/-- The branches that come from branches so. -/
inductive Arms.Rewritten (N : Term → Term → Prop) (into : Bool) : Arms → Arms → Prop
  | done : Arms.Rewritten N into .done .done
  | otherwise {t t' : Term} (h : Term.Rewritten N into t t') :
    Arms.Rewritten N into (.otherwise t) (.otherwise t')
  | arm {c c' : Condition} {t t' : Term} {rest rest' : Arms}
    (hc : Condition.Rewritten N into c c') (ht : Term.Rewritten N into t t')
    (hrest : Arms.Rewritten N into rest rest') :
    Arms.Rewritten N into (.arm c t rest) (.arm c' t' rest')

/-- The conditions that come from a condition so. -/
inductive Condition.Rewritten (N : Term → Term → Prop) (into : Bool) : Condition → Condition → Prop
  | all {cs cs' : List Condition} (h : RewrittenAll N into cs cs') :
    Condition.Rewritten N into (.all cs) (.all cs')
  | any {cs cs' : List Condition} (h : RewrittenAll N into cs cs') :
    Condition.Rewritten N into (.any cs) (.any cs')
  | compare {l l' r r' : Term} (op : Comparison) (hl : Term.Rewritten N into l l')
    (hr : Term.Rewritten N into r r') :
    Condition.Rewritten N into (.compare l op r) (.compare l' op r')
  | member {t t' : Term} (m : Members) (negated : Bool) (h : Term.Rewritten N into t t') :
    Condition.Rewritten N into (.member t m negated) (.member t' m negated)
  | isNull {t t' : Term} (negated : Bool) (h : Term.Rewritten N into t t') :
    Condition.Rewritten N into (.isNull t negated) (.isNull t' negated)
  | between {t t' low low' high high' : Term} (negated : Bool) (ht : Term.Rewritten N into t t')
    (hlow : Term.Rewritten N into low low') (hhigh : Term.Rewritten N into high high') :
    Condition.Rewritten N into (.between t low high negated) (.between t' low' high' negated)
  | like {t t' p p' : Term} (ignoreCase negated : Bool) (ht : Term.Rewritten N into t t')
    (hp : Term.Rewritten N into p p') :
    Condition.Rewritten N into (.like t p ignoreCase negated) (.like t' p' ignoreCase negated)
  | truth {t t' : Term} (negated : Bool) (h : Term.Rewritten N into t t') :
    Condition.Rewritten N into (.truth t negated) (.truth t' negated)

/-- The lists of conditions that come from a list so. -/
inductive RewrittenAll (N : Term → Term → Prop) (into : Bool) :
    List Condition → List Condition → Prop
  | nil : RewrittenAll N into [] []
  | cons {c c' : Condition} {cs cs' : List Condition} (hc : Condition.Rewritten N into c c')
    (hcs : RewrittenAll N into cs cs') : RewrittenAll N into (c :: cs) (c' :: cs')

end

/-! ### Planning steps -/

/-- A plan that keeps the keys, the collected fields and the outputs of another. -/
structure Grouping.Extends (g h : Grouping) : Prop where
  keys : h.keys = g.keys
  fields : g.fields ⊆ h.fields
  outputs : ∀ {name out}, g.outputs.get? name = some out → h.outputs.get? name = some out

namespace Grouping.Extends

theorem refl (g : Grouping) : g.Extends g := ⟨rfl, fun _ h => h, fun h => h⟩

theorem trans {a b c : Grouping} (hab : a.Extends b) (hbc : b.Extends c) : a.Extends c :=
  ⟨hbc.keys.trans hab.keys, fun _ h => hbc.fields (hab.fields h), fun h => hbc.outputs (hab.outputs h)⟩

end Grouping.Extends

/-- How planning steps of a kind treat the plan: what they keep true of it, and how they may change
it. -/
structure Discipline where
  inv : Grouping → Prop
  rel : Grouping → Grouping → Prop
  refl : ∀ g, rel g g
  trans : ∀ {a b c}, rel a b → rel b c → rel a c
  grows : ∀ {g h}, rel g h → g.Extends h

namespace Discipline

variable {d : Discipline} {α β : Type}

/-- A planning step keeps to the discipline, and what it yields has a property in every plan from
there on. -/
def Yields (d : Discipline) (p : Planning α) (Q : Grouping → α → Prop) : Prop :=
  ∀ g a g', d.inv g → p.run g = .ok (a, g') → d.inv g' ∧ d.rel g g' ∧ ∀ h, g'.Extends h → Q h a

theorem Yields.pure {Q : Grouping → α → Prop} {a : α} (h : ∀ g, Q g a) : d.Yields (pure a) Q := by
  intro g b g' hinv hrun
  cases hrun
  exact ⟨hinv, d.refl g, fun h' _ => h h'⟩

theorem Yields.bind {p : Planning α} {k : α → Planning β} {Q : Grouping → α → Prop}
    {R : Grouping → β → Prop} (hp : d.Yields p Q)
    (hk : ∀ a, d.Yields (k a) fun h b => Q h a → R h b) : d.Yields (p >>= k) R := by
  intro g b g' hinv hrun
  obtain ⟨⟨a, g₁⟩, hfirst, hsecond⟩ := Compiled.bind_eq_ok.mp hrun
  obtain ⟨hinv₁, hrel₁, hQ⟩ := hp _ _ _ hinv hfirst
  obtain ⟨hinv₂, hrel₂, hR⟩ := hk a _ _ _ hinv₁ hsecond
  refine ⟨hinv₂, d.trans hrel₁ hrel₂, fun h hext => hR h hext ?_⟩
  exact hQ h ((d.grows hrel₂).trans hext)

theorem Yields.mono {p : Planning α} {Q R : Grouping → α → Prop} (hp : d.Yields p Q)
    (h : ∀ g a, Q g a → R g a) : d.Yields p R := by
  intro g a g' hinv hrun
  obtain ⟨hinv', hrel, hQ⟩ := hp _ _ _ hinv hrun
  exact ⟨hinv', hrel, fun g'' hext => h g'' a (hQ g'' hext)⟩

end Discipline

/-! ### Transforming is rewriting -/

/-- What a choice for a node says of it: a replacement is one that `N` allows, and a node without
one is neither a column or field nor an aggregate. -/
def Chosen (N : Term → Term → Prop) (t : Term) : Option Term → Prop
  | some u => N t u
  | none => t.fieldPath? = none ∧ t.isAggregate = false

section

variable {d : Discipline} {f : Term → Planning (Option Term)} {into : Bool}
variable {N : Grouping → Term → Term → Prop}

theorem yields_replaceOr {t : Term} (hf : d.Yields (f t) fun h choice => Chosen (N h) t choice)
    {parts : Planning Term}
    (hparts : d.Yields parts fun h u => Chosen (N h) t none → t.Rewritten (N h) into u) :
    d.Yields (replaceOr f t parts) fun h u => t.Rewritten (N h) into u := by
  refine hf.bind fun choice => ?_
  cases choice with
  | some u => exact .pure fun _ hchosen => .replaced hchosen
  | none => exact hparts

variable (hf : ∀ t, d.Yields (f t) fun h choice => Chosen (N h) t choice)
include hf

set_option linter.unusedSectionVars false in
mutual

/-- A transformed term is a rewritten one. -/
theorem Term.yields_transform :
    ∀ t : Term, d.Yields (t.transform f into) fun h u => t.Rewritten (N h) into u
  | .compare l op r => yields_replaceOr (hf _) <|
    (Term.yields_transform l).bind fun _ => (Term.yields_transform r).bind fun _ =>
      .pure fun _ hr hl _ => .compare op hl hr
  | .arith op l r => yields_replaceOr (hf _) <|
    (Term.yields_transform l).bind fun _ => (Term.yields_transform r).bind fun _ =>
      .pure fun _ hr hl _ => .arith op hl hr
  | .dateTrunc unit arg => by
    refine yields_replaceOr (hf _) ?_
    by_cases hinto : into = true
    · rw [if_pos hinto]
      exact (Term.yields_transform arg).bind fun _ =>
        .pure fun _ harg _ => .dateTrunc unit hinto harg
    · rw [if_neg hinto]
      exact .pure fun _ _ => .call unit (Bool.eq_false_iff.mpr hinto)
  | .caseOf arms => yields_replaceOr (hf _) <|
    (Arms.yields_transform arms).bind fun _ => .pure fun _ harms _ => .caseOf harms
  | .param i v => yields_replaceOr (hf _) (.pure fun _ _ => .param i v)
  | .const v => yields_replaceOr (hf _) (.pure fun _ _ => .const v)
  -- the other leaves do not stay
  | .column _ | .field _ => yields_replaceOr (hf _) (.pure fun _ h => nomatch h.1)
  | .countAll | .aggregate .. => yields_replaceOr (hf _) (.pure fun _ h => nomatch h.2)

theorem Arms.yields_transform :
    ∀ arms : Arms, d.Yields (arms.transform f into) fun h arms' => arms.Rewritten (N h) into arms'
  | .done => .pure fun _ => .done
  | .otherwise t => (Term.yields_transform t).bind fun _ => .pure fun _ ht => .otherwise ht
  | .arm c t rest =>
    (Condition.yields_transform c).bind fun _ => (Term.yields_transform t).bind fun _ =>
      (Arms.yields_transform rest).bind fun _ =>
        .pure fun _ hrest ht hc => .arm hc ht hrest

theorem Condition.yields_transform :
    ∀ c : Condition, d.Yields (c.transform f into) fun h c' => c.Rewritten (N h) into c'
  | .all cs => (yields_transformAll cs).bind fun _ => .pure fun _ h => .all h
  | .any cs => (yields_transformAll cs).bind fun _ => .pure fun _ h => .any h
  | .compare l op r =>
    (Term.yields_transform l).bind fun _ => (Term.yields_transform r).bind fun _ =>
      .pure fun _ hr hl => .compare op hl hr
  | .member t m n => (Term.yields_transform t).bind fun _ => .pure fun _ h => .member m n h
  | .isNull t n => (Term.yields_transform t).bind fun _ => .pure fun _ h => .isNull n h
  | .between t low high n =>
    (Term.yields_transform t).bind fun _ => (Term.yields_transform low).bind fun _ =>
      (Term.yields_transform high).bind fun _ =>
        .pure fun _ hhigh hlow ht => .between n ht hlow hhigh
  | .like t p i n =>
    (Term.yields_transform t).bind fun _ => (Term.yields_transform p).bind fun _ =>
      .pure fun _ hp ht => .like i n ht hp
  | .truth t n => (Term.yields_transform t).bind fun _ => .pure fun _ h => .truth n h

theorem yields_transformAll :
    ∀ cs : List Condition, d.Yields (transformAll f into cs) fun h cs' => RewrittenAll (N h) into cs cs'
  | [] => .pure fun _ => .nil
  | c :: cs =>
    (Condition.yields_transform c).bind fun _ => (yields_transformAll cs).bind fun _ =>
      .pure fun _ hcs hc => .cons hc hcs

end

end

end DocSql
