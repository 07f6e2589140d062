import DocSql.Proofs.FreshNames
import DocSql.Proofs.Rewriting
import DocSql.Proofs.Sameness

/-! # The plan of a grouping

While the plan of a grouping grows, its names stay apart: every collected field belongs to one
aggregate or one path, and every output holds the rewriting of one term.  `Grouping.Sound` and
`Grouping.Valid` are the two invariants, and this module proves that lowering a term keeps the first
and that adding outputs keeps the second.
-/
namespace DocSql
open List
namespace Grouping

variable {g h : Grouping} {t : Term} {name : String}

/-- A GROUP BY clause is absent, or its keys up to the next clause are read. -/
theorem read?_eq_ok {r : Reading} {columns : Columns} {c after : TokenCursor}
    {clause : Option Grouping} (h : Grouping.read? r columns c = .ok (clause, after)) :
    (c.eat? .GROUP_BY = none ∧ clause = none ∧ after = c) ∨
      ∃ afterGroup keys, c.eat? .GROUP_BY = some afterGroup ∧
        readKeys r columns [] 0 (Token.splitCommas (afterGroup.takeUntil isClauseKeyword).1) =
          .ok keys ∧
        after = (afterGroup.takeUntil isClauseKeyword).2 ∧
        clause = some { keys, explicit := true, span := .between c after } := by
  unfold Grouping.read? at h
  split at h
  · rename_i heat
    cases h
    exact .inl ⟨heat, rfl, rfl⟩
  · rename_i afterGroup heat
    simp only at h
    split at h
    · cases h
    · obtain ⟨keys, hkeys, h⟩ := Compiled.bind_eq_ok.mp h
      cases h
      exact .inr ⟨afterGroup, keys, heat, hkeys, rfl, rfl⟩

/-! ### What lowering writes -/

/-- The fields that may stand for a term after the grouping: a key that equals it, an aggregate that
equals it, or, for a column, the first value of its path. -/
inductive Replaces (g : Grouping) : Term → Term → Prop
  | key {key : GroupKey} {t : Term} (hkey : key ∈ g.keys) (hsame : key.term.same t = true) :
    Replaces g t (.field ("_id." ++ key.name))
  | call {field : GroupField} {call t : Term} {accumulator : Value} (hfield : field ∈ g.fields)
    (hsource : field.source = .aggregate call accumulator) (hsame : call = t ∨ call.same t = true) :
    Replaces g t (.field field.name)
  | column {field : GroupField} {c : Column} (hfield : field ∈ g.fields)
    (hsource : field.source = .first c.path) : Replaces g (.column c) (.field field.name)

/-- A term over keys and collected fields stands for a term over rows, in this plan and every later
one. -/
def Lowers (g : Grouping) (t u : Term) : Prop := ∀ h, g.Extends h → t.Rewritten h.Replaces true u

/-- The output under a name stands for a term over rows. -/
def Holds (g : Grouping) (name : String) (t : Term) : Prop :=
  ∃ out, g.outputs.get? name = some out ∧ g.Lowers t out

theorem Lowers.mono (hext : g.Extends h) {u : Term} (hl : g.Lowers t u) :
    h.Lowers t u := fun h' hext' => hl h' (hext.trans hext')

theorem Holds.mono (hext : g.Extends h) (hh : g.Holds name t) : h.Holds name t := by
  obtain ⟨out, hout, hl⟩ := hh
  exact ⟨out, hext.outputs hout, hl.mono hext⟩

/-! ### Sound plans -/

/-- Whether the one is collected where the other is asked for. -/
def covers (known : Collected) : Collected → Bool
  | .aggregate call _ => known.isCall call
  | .first path => known.isFirst path

/-- Something is collected as it says itself. -/
def IsExact : Collected → Prop
  | .aggregate call accumulator => call.isAggregate = true ∧ call.accumulator = .ok accumulator
  | .first _ => True

/-- The names of keys and collected fields stay apart, and every field collects something of its
own. -/
structure Sound (g : Grouping) : Prop where
  keyNames : (g.keys.map (·.name)).Nodup
  keyDotless : ∀ key ∈ g.keys, Dotless key.name
  fieldNames : (g.fields.map (·.name)).Nodup
  fieldDotless : ∀ field ∈ g.fields, Dotless field.name ∧ field.name ≠ "_id"
  sources : g.fields.Pairwise fun known field => covers known.source field.source = false
  exact : ∀ field ∈ g.fields, IsExact field.source

theorem takenNames_fresh (h : name ∉ g.takenNames) :
    name ≠ "_id" ∧ ∀ field ∈ g.fields, field.name ≠ name := by
  simp only [takenNames, mem_cons, mem_map, not_or, not_exists, not_and] at h
  exact h

/-- A new field with a free name, for something that is not collected yet, keeps a plan sound. -/
theorem Sound.addField (hg : g.Sound) {source : Collected} (hname : name ∉ g.takenNames)
    (hdotless : Dotless name) (hexact : IsExact source)
    (hnew : ∀ known ∈ g.fields, covers known.source source = false) :
    (g.addField name source).Sound := by
  obtain ⟨hid, hfree⟩ := takenNames_fresh hname
  refine { keyNames := hg.keyNames, keyDotless := hg.keyDotless, fieldNames := ?_,
           fieldDotless := ?_, sources := ?_, exact := ?_ }
  · simp only [Grouping.addField, map_append, map_cons, map_nil, nodup_append]
    refine ⟨hg.fieldNames, nodup_singleton _, ?_⟩
    rintro a ha b hb rfl
    obtain ⟨field, hfield, rfl⟩ := mem_map.mp ha
    exact hfree field hfield (mem_singleton.mp hb)
  · intro field hfield
    rcases mem_append.mp hfield with hold | hnew
    · exact hg.fieldDotless field hold
    · cases mem_singleton.mp hnew
      exact ⟨hdotless, hid⟩
  · refine pairwise_append.mpr ⟨hg.sources, pairwise_singleton _ _, ?_⟩
    intro known hknown field hfield
    cases mem_singleton.mp hfield
    exact hnew known hknown
  · intro field hfield
    rcases mem_append.mp hfield with hold | hnew
    · exact hg.exact field hold
    · cases mem_singleton.mp hnew
      exact hexact

/-! ### Lowering -/

/-- A plan that has at most more collected fields than another. -/
structure Collects (g h : Grouping) : Prop where
  keys : h.keys = g.keys
  fields : g.fields ⊆ h.fields
  outputs : h.outputs = g.outputs
  hidden : h.hidden = g.hidden

theorem Collects.extends (hc : g.Collects h) : g.Extends h :=
  ⟨hc.keys, hc.fields, fun hout => hc.outputs ▸ hout⟩

/-- Lowering a term keeps the plan sound and only collects more fields. -/
def lowering : Discipline where
  inv := Sound
  rel := Collects
  refl _ := ⟨rfl, fun _ h => h, rfl, rfl⟩
  trans hab hbc := ⟨hbc.keys.trans hab.keys, fun _ h => hbc.fields (hab.fields h),
    hbc.outputs.trans hab.outputs, hbc.hidden.trans hab.hidden⟩
  grows := Collects.extends

theorem collects_addField (g : Grouping) (name : String) (source : Collected) :
    g.Collects (g.addField name source) :=
  ⟨rfl, fun _ h => mem_append_left _ h, rfl, rfl⟩

theorem mem_addField (g : Grouping) (name : String) (source : Collected) :
    ⟨name, source⟩ ∈ (g.addField name source).fields :=
  mem_append_right _ (mem_singleton.mpr rfl)

/-- A path that is carried already is found again. -/
theorem carry_run (g : Grouping) (path : String) :
    (carry path).run g = .ok ((g.fields.find? fun field => field.source.isFirst path).elim
      (freshName g.takenNames (dotless path),
        g.addField (freshName g.takenNames (dotless path)) (.first path))
      fun field => (field.name, g)) := by
  unfold carry
  cases hfind : g.fields.find? fun field => field.source.isFirst path <;> simp [hfind]

/-- An aggregate that is collected already is found again. -/
theorem accumulate_run (g : Grouping) (call : Term) :
    (accumulate call).run g = (g.fields.find? fun field => field.source.isCall call).elim
      (call.accumulator >>= fun accumulator => .ok (freshName g.takenNames (dotless (termName call)),
        g.addField (freshName g.takenNames (dotless (termName call))) (.aggregate call accumulator)))
      fun field => .ok (field.name, g) := by
  unfold accumulate
  cases hfind : g.fields.find? fun field => field.source.isCall call with
  | some field => simp [hfind]
  | none => cases call.accumulator <;> simp [hfind]

/-- A carried path has a field of its own. -/
theorem yields_carry (path : String) : lowering.Yields (carry path) fun h name =>
      ∃ field ∈ h.fields, field.source = .first path ∧ field.name = name := by
  intro g name g' hg hrun
  rw [carry_run] at hrun
  cases hfind : g.fields.find? fun field => field.source.isFirst path with
  | some field =>
    rw [hfind] at hrun
    cases hrun
    have hsource : field.source = .first path := by
      have hfirst := find?_some hfind
      cases hs : field.source with
      | aggregate => simp [hs, Collected.isFirst] at hfirst
      | first known => simpa [hs, Collected.isFirst] using hfirst
    exact ⟨hg, lowering.refl g, fun h hext =>
      ⟨field, hext.fields (mem_of_find?_eq_some hfind), hsource, rfl⟩⟩
  | none =>
    rw [hfind] at hrun
    cases hrun
    refine ⟨?_, collects_addField g _ _, fun h hext => ⟨_, hext.fields (mem_addField g _ _), rfl, rfl⟩⟩
    refine hg.addField (freshName_not_mem _ _) (dotless_freshName _ (dotless_dotless _)) trivial ?_
    intro known hknown
    simpa [covers] using find?_eq_none.mp hfind known hknown

/-- A collected aggregate has a field of its own. -/
theorem yields_accumulate {call : Term} (hcall : call.isAggregate = true) :
    lowering.Yields (accumulate call) fun h name =>
      ∃ field ∈ h.fields, field.name = name ∧
        ∃ known accumulator, field.source = .aggregate known accumulator ∧
          (known = call ∨ known.same call = true) := by
  intro g name g' hg hrun
  rw [accumulate_run] at hrun
  cases hfind : g.fields.find? fun field => field.source.isCall call with
  | some field =>
    rw [hfind] at hrun
    cases hrun
    refine ⟨hg, lowering.refl g, fun h hext =>
      ⟨field, hext.fields (mem_of_find?_eq_some hfind), rfl, ?_⟩⟩
    have hsame := find?_some hfind
    cases hs : field.source with
    | aggregate known accumulator =>
      exact ⟨known, accumulator, rfl, .inr (by simpa [hs, Collected.isCall] using hsame)⟩
    | first => simp [hs, Collected.isCall] at hsame
  | none =>
    rw [hfind] at hrun
    obtain ⟨accumulator, haccumulator, hrun⟩ := Compiled.bind_eq_ok.mp hrun
    cases hrun
    refine ⟨?_, collects_addField g _ _, fun h hext =>
      ⟨_, hext.fields (mem_addField g _ _), rfl, call, accumulator, rfl, .inl rfl⟩⟩
    refine hg.addField (freshName_not_mem _ _) (dotless_freshName _ (dotless_dotless _))
      ⟨hcall, haccumulator⟩ ?_
    intro known hknown
    simpa [covers] using find?_eq_none.mp hfind known hknown

/-- What a term that is no key is after the grouping: its form decides. -/
def lowerForm : Term → Planning (Option Term)
  | .column c => do return some (.field (← carry c.path))
  | .field name => throw (.undecodable (.aliasBeforeGrouping name))
  | t => if t.isAggregate then do return some (.field (← accumulate t)) else return none

theorem lowerNode_run (g : Grouping) (t : Term) : (lowerNode t).run g = match g.key? t with
      | some key => .ok (some (.field ("_id." ++ key.name)), g)
      | none => (lowerForm t).run g := by
  show (match g.key? t with
    | some key => pure (some (.field ("_id." ++ key.name)))
    | none => lowerForm t : Planning (Option Term)).run g = _
  cases g.key? t <;> rfl

theorem yields_lowerForm (t : Term) :
    lowering.Yields (lowerForm t) fun h choice => Chosen h.Replaces t choice := by
  rw [lowerForm.eq_def]
  split
  · rename_i c
    refine (yields_carry c.path).bind fun name => .pure ?_
    rintro h ⟨field, hfield, hsource, rfl⟩
    exact .column hfield hsource
  · intro g choice g' _ hrun
    cases hrun
  · rename_i hcolumn hfield
    split
    · rename_i hcall
      refine (yields_accumulate hcall).bind fun name => .pure ?_
      rintro h ⟨field, hmem, rfl, known, accumulator, hsource, hsame⟩
      exact .call hmem hsource hsame
    · rename_i hcall
      refine .pure fun _ => ⟨?_, by simpa using hcall⟩
      cases t with
      | column c => exact absurd rfl (hcolumn c)
      | field name => exact absurd rfl (hfield name)
      | _ => rfl

/-- Lowering a node replaces it by the field that stands for it, unless its parts decide. -/
theorem yields_lowerNode (t : Term) :
    lowering.Yields (lowerNode t) fun h choice => Chosen h.Replaces t choice := by
  intro g choice g' hg hrun
  rw [lowerNode_run] at hrun
  cases hkey : g.key? t with
  | some key =>
    rw [hkey] at hrun
    cases hrun
    refine ⟨hg, lowering.refl g, fun h hext => .key (hext.keys ▸ mem_of_find?_eq_some hkey) ?_⟩
    simpa using find?_some hkey
  | none =>
    rw [hkey] at hrun
    exact yields_lowerForm t g choice g' hg hrun

/-- A lowered term stands for the term over rows. -/
theorem lower_spec {g' : Grouping} (hg : g.Sound) {u : Term} (hrun : (lower t).run g = .ok (u, g'))
    : g'.Sound ∧ g.Collects g' ∧ g'.Lowers t u :=
  Term.yields_transform yields_lowerNode t g u g' hg hrun

/-! ### Valid plans -/

/-- A sound plan, in which every output has a name of its own and stands for a term over rows, and the
further outputs for the terms they were made for. -/
structure Valid (g : Grouping) : Prop extends g.Sound where
  outputNames : g.outputs.keys.Nodup
  lowered : ∀ output ∈ g.outputs, ∃ t, g.Lowers t output.2
  hidden : ∀ known ∈ g.hidden, g.Holds known.2 known.1

theorem Valid.of_collects {g' : Grouping} (hg : g.Valid) (hsound : g'.Sound) (hc : g.Collects g') :
    g'.Valid where
  toSound := hsound
  outputNames := hc.outputs ▸ hg.outputNames
  lowered output hout := by
    obtain ⟨t, hl⟩ := hg.lowered output (hc.outputs ▸ hout)
    exact ⟨t, hl.mono hc.extends⟩
  hidden known hknown := (hg.hidden known (hc.hidden ▸ hknown)).mono hc.extends

/-- The plan with one more output. -/
def withOutput (g : Grouping) (name : String) (out : Term) (hidden : List (Term × String)) :
    Grouping := { g with outputs := g.outputs.insert name out, hidden }

theorem extends_withOutput (hname : name ∉ g.outputs.keys) (out : Term)
    (hidden : List (Term × String)) : g.Extends (g.withOutput name out hidden) where
  keys := rfl
  fields _ h := h
  outputs {other out'} hother := by
    have hne : name ≠ other := by
      rintro rfl
      exact hname (Entries.mem_keys_of_get? hother)
    exact (Entries.get?_insert_of_ne g.outputs out hne).trans hother

/-- An output with a new name, for a lowered term, keeps a plan valid. -/
theorem Valid.withOutput (hg : g.Valid) (hname : name ∉ g.outputs.keys) {out : Term}
    (hl : g.Lowers t out) {hidden : List (Term × String)}
    (hhidden : ∀ known ∈ hidden, known ∈ g.hidden ∨ known = (t, name)) :
    (g.withOutput name out hidden).Valid ∧ (g.withOutput name out hidden).Holds name t := by
  have hext := extends_withOutput hname out hidden
  have hholds : (g.withOutput name out hidden).Holds name t :=
    ⟨out, Entries.get?_insert_self g.outputs name out, hl.mono hext⟩
  refine ⟨{ toSound := ⟨hg.keyNames, hg.keyDotless, hg.fieldNames, hg.fieldDotless, hg.sources,
      hg.exact⟩, outputNames := ?_, lowered := ?_, hidden := ?_ }, hholds⟩
  · rw [Grouping.withOutput, Entries.keys_insert, if_neg hname, nodup_append]
    refine ⟨hg.outputNames, nodup_singleton _, ?_⟩
    rintro a ha b hb rfl
    exact hname (mem_singleton.mp hb ▸ ha)
  · intro output hout
    rcases Entries.mem_insert hout with hold | rfl
    · obtain ⟨t', hl'⟩ := hg.lowered output hold
      exact ⟨t', hl'.mono hext⟩
    · exact ⟨t, hl.mono hext⟩
  · intro known hknown
    rcases hhidden known hknown with hold | rfl
    · exact (hg.hidden known hold).mono hext
    · exact hholds

/-- Adding the items of a SELECT list makes an output for each, under its own name. -/
theorem addItems_spec : ∀ {items : List SelectItem} {g g' : Grouping}, g.Valid →
    (items.map (·.name)).Nodup → (∀ item ∈ items, item.name ∉ g.outputs.keys) →
    (addItems items).run g = .ok ((), g') →
    g'.Valid ∧ g.Extends g' ∧ ∀ item ∈ items, g'.Holds item.name item.term
  | [], g, g', hg, _, _, hrun => by
    cases hrun
    exact ⟨hg, .refl g, fun _ hmem => absurd hmem not_mem_nil⟩
  | item :: items, g, g', hg, hnodup, hfree, hrun => by
    obtain ⟨hitem, hnodup⟩ := nodup_cons.mp hnodup
    rw [addItems, StateT.run_bind] at hrun
    obtain ⟨⟨out, g₁⟩, hlower, hrun⟩ := Compiled.bind_eq_ok.mp hrun
    obtain ⟨hsound, hcollects, hl⟩ := lower_spec hg.toSound hlower
    have hname : item.name ∉ g₁.outputs.keys := by
      rw [hcollects.outputs]
      exact hfree item mem_cons_self
    have hrest : (addItems items).run (g₁.withOutput item.name out g₁.hidden) = .ok ((), g') := hrun
    obtain ⟨hvalid, hholds⟩ :=
      (hg.of_collects hsound hcollects).withOutput hname hl fun known hknown => .inl hknown
    have hext₁ := extends_withOutput hname out g₁.hidden
    have hfree₁ : ∀ other ∈ items,
        other.name ∉ (g₁.withOutput item.name out g₁.hidden).outputs.keys := by
      intro other hother hmem
      rw [withOutput, Entries.keys_insert, if_neg hname, hcollects.outputs] at hmem
      rcases mem_append.mp hmem with hmem | hmem
      · exact hfree other (mem_cons_of_mem _ hother) hmem
      · exact hitem (mem_map.mpr ⟨other, hother, mem_singleton.mp hmem⟩)
    obtain ⟨hvalid', hext₂, hitems⟩ := addItems_spec hvalid hnodup hfree₁ hrest
    refine ⟨hvalid', (hcollects.extends.trans hext₁).trans hext₂, ?_⟩
    intro other hother
    rcases mem_cons.mp hother with rfl | hother
    · exact hholds.mono hext₂
    · exact hitems other hother

/-! ### Exposing -/

/-- Exposing a term keeps the plan valid, with the items of the SELECT list among its outputs, and
only adds fields and outputs. -/
def exposing (columns : Columns) : Discipline where
  inv g := g.Valid ∧ ∀ item ∈ columns.items, g.Holds item.name item.term
  rel := Extends
  refl := .refl
  trans := .trans
  grows h := h

/-- An output stands for a term that is the given one or equals it. -/
def HoldsSame (g : Grouping) (name : String) (t : Term) : Prop :=
  ∃ known, (known = t ∨ known.same t = true) ∧ g.Holds name known

theorem HoldsSame.mono (hext : g.Extends h) (hs : g.HoldsSame name t) : h.HoldsSame name t := by
  obtain ⟨known, hsame, hholds⟩ := hs
  exact ⟨known, hsame, hholds.mono hext⟩

theorem HoldsSame.mem_keys (h : g.HoldsSame name t) : name ∈ g.outputs.keys := by
  obtain ⟨known, -, out, hout, -⟩ := h
  exact Entries.mem_keys_of_get? hout

/-- The output for a term that is not in the SELECT list is made once. -/
theorem exposeHidden_run (g : Grouping) (t : Term) :
    (exposeHidden t).run g = (g.hidden.find? fun known => known.1.same t).elim
      ((lower t).run g >>= fun result =>
        let name := freshName result.2.outputs.keys ("_" ++ dotless (termName t))
        .ok (name, result.2.withOutput name result.1 (result.2.hidden ++ [(t, name)])))
      fun known => .ok (known.2, g) := by
  unfold exposeHidden
  cases hfind : g.hidden.find? fun known => known.1.same t with
  | some known => simp [hfind]
  | none => cases hlower : (lower t).run g <;> simp [hfind, hlower, withOutput]

theorem yields_exposeHidden (columns : Columns) (t : Term) :
    (exposing columns).Yields (exposeHidden t) fun h name => h.HoldsSame name t := by
  rintro g name g' ⟨hg, hitems⟩ hrun
  rw [exposeHidden_run] at hrun
  cases hfind : g.hidden.find? fun known => known.1.same t with
  | some known =>
    rw [hfind] at hrun
    cases hrun
    have hsame : known.1.same t = true := by simpa using find?_some hfind
    have hholds := hg.hidden known (mem_of_find?_eq_some hfind)
    exact ⟨⟨hg, hitems⟩, .refl g, fun h hext => ⟨known.1, .inr hsame, hholds.mono hext⟩⟩
  | none =>
    rw [hfind] at hrun
    obtain ⟨⟨out, g₁⟩, hlower, hrun⟩ := Compiled.bind_eq_ok.mp hrun
    obtain ⟨hsound, hcollects, hl⟩ := lower_spec hg.toSound hlower
    have hfresh := freshName_not_mem g₁.outputs.keys ("_" ++ dotless (termName t))
    cases hrun
    generalize freshName g₁.outputs.keys ("_" ++ dotless (termName t)) = name at hfresh
    have hhidden : ∀ known ∈ g₁.hidden ++ [(t, name)], known ∈ g₁.hidden ∨ known = (t, name) := by
      simp
    obtain ⟨hvalid, hholds⟩ := (hg.of_collects hsound hcollects).withOutput hfresh hl hhidden
    have hext := hcollects.extends.trans
      (extends_withOutput hfresh out (g₁.hidden ++ [(t, name)]))
    exact ⟨⟨hvalid, fun item hitem => (hitems item hitem).mono hext⟩, hext, fun h hext' =>
      ⟨t, .inl rfl, hholds.mono hext'⟩⟩

/-- The output that a term is exposed under is there, and it stands for the term unless that is an
alias. -/
theorem yields_expose (columns : Columns) (t : Term) :
    (exposing columns).Yields (expose columns t) fun h name =>
      name ∈ h.outputs.keys ∧ ((∀ label, t ≠ .field label) → h.HoldsSame name t) := by
  rw [expose.eq_def]
  split
  · rename_i label
    rintro g name g' ⟨hg, hitems⟩ hrun
    cases hitem : columns.byName label with
    | error e => simp [hitem] at hrun
    | ok item =>
      have hrun' : (item.name, g) = (name, g') := by simpa [hitem] using hrun
      cases hrun'
      have hmem : item ∈ columns.items := by
        unfold Columns.byName at hitem
        split at hitem
        · rename_i found hfound
          cases hitem
          exact mem_of_find?_eq_some hfound
        · cases hitem
      refine ⟨⟨hg, hitems⟩, .refl g, fun h hext => ⟨?_, fun hne => absurd rfl (hne label)⟩⟩
      obtain ⟨out, hout, -⟩ := (hitems item hmem).mono hext
      exact Entries.mem_keys_of_get? hout
  · split
    · rename_i item hfind
      rintro g name g' ⟨hg, hitems⟩ hrun
      cases hrun
      have hsame : item.term.same t = true := by simpa using find?_some hfind
      have hholds := hitems item (mem_of_find?_eq_some hfind)
      refine ⟨⟨hg, hitems⟩, .refl g, fun h hext => ?_⟩
      have hstands : h.HoldsSame item.name t := ⟨item.term, .inr hsame, hholds.mono hext⟩
      exact ⟨hstands.mem_keys, fun _ => hstands⟩
    · exact (yields_exposeHidden columns t).mono fun h name hstands =>
        ⟨hstands.mem_keys, fun _ => hstands⟩

/-- The output that an operand of HAVING is rewritten to.  It holds the operand, unless that is an
alias. -/
def Stands (g : Grouping) (t u : Term) : Prop :=
  ∃ name ∈ g.outputs.keys, u = .field name ∧ ((∀ label, t ≠ .field label) → g.HoldsSame name t)

theorem yields_exposeNode_stands (columns : Columns) (t : Term) :
    (exposing columns).Yields (exposeNode columns t) fun h choice => Chosen h.Stands t choice := by
  intro g choice g' hg hrun
  have hrun' : (if g.knows columns t then do return some (.field (← expose columns t))
      else return none : Planning (Option Term)).run g = .ok (choice, g') := hrun
  by_cases hknows : g.knows columns t = true
  · rw [if_pos hknows] at hrun'
    refine Discipline.Yields.bind (yields_expose columns t) (fun name => .pure ?_) g choice g' hg hrun'
    rintro h ⟨hmem, hstands⟩
    exact ⟨name, hmem, rfl, hstands⟩
  · rw [if_neg hknows] at hrun'
    cases hrun'
    refine ⟨hg, .refl g, fun h _ => ?_⟩
    simp only [knows, Bool.or_eq_true, not_or] at hknows
    exact ⟨by simpa using hknows.1.2, by simpa using hknows.2⟩

/-- The fields that may stand for an operand of HAVING: the outputs. -/
def Exposes (g : Grouping) (_ u : Term) : Prop := ∃ name ∈ g.outputs.keys, u = .field name

theorem yields_exposeNode (columns : Columns) (t : Term) :
    (exposing columns).Yields (exposeNode columns t) fun h choice => Chosen h.Exposes t choice := by
  refine (yields_exposeNode_stands columns t).mono fun h choice hchosen => ?_
  cases choice with
  | none => exact hchosen
  | some u =>
    obtain ⟨name, hname, hfield, -⟩ := hchosen
    exact ⟨name, hname, hfield⟩

end Grouping
end DocSql
