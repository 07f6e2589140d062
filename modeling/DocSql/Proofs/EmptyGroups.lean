import DocSql.Proofs.AliasReading
import DocSql.Proofs.BoundData
import DocSql.Proofs.ClauseTiling
import DocSql.Proofs.GroupingFaithful
import DocSql.Proofs.GroupingReads
import DocSql.Proofs.PathWriting

/-! # The row of a group of no rows

Without GROUP BY all rows are one group, and there is a row for it even where there are no rows.
The store makes no document in that case, and so the row is made of the SELECT list: zero for a
count, and null for every other item.  The stages stand for another row: a constant is itself there,
and arithmetic is reckoned with zeros and nulls.  `Planned.empty_row_iff` says for which items the
two are the same.
-/
namespace DocSql
open Compiled List

variable {g : Grouping} {t : Term}

/-! ### Reckoning -/

/-- Whether the operation is addition, subtraction or multiplication. -/
def Arithmetic.isRing : Arithmetic → Bool
  | .add | .sub | .mul => true
  | .div | .mod => false

/-- The operation that has a name in the store. -/
def Arithmetic.named? (name : String) : Option Arithmetic :=
  [.add, .sub, .mul, .div, .mod].find? fun op => op.operator == name

theorem Arithmetic.named?_operator (op : Arithmetic) : named? op.operator = some op := by
  cases op <;> decide

/-- How a store reckons: what arithmetic makes of two values, and what other operators mean.
Arithmetic gives null exactly if one of the values is null. -/
structure Reckoning where
  combine : Arithmetic → Value → Value → Option Value
  null_iff : ∀ op, op.isRing = true → ∀ a b, combine op a b = some .null ↔ a = .null ∨ b = .null
  ops : Operators

namespace Reckoning

variable (k : Reckoning)

/-- The value of an expression in a document.  A missing field counts as null. -/
def value? (document : Value) : Value → Option Value
  | .object [(name, .array [l, r])] =>
    match Arithmetic.named? name with
    | some op => do
      let a ← value? document l
      let b ← value? document r
      k.combine op a b
    | none => (evaluate k.ops document (.object [(name, .array [l, r])])).map (·.getD .null)
  | e => (evaluate k.ops document e).map (·.getD .null)
termination_by e => sizeOf e

theorem value?_binary (document : Value) (op : Arithmetic) (l r : Value) :
    k.value? document (binary op.operator l r) = (do
      let a ← k.value? document l
      let b ← k.value? document r
      k.combine op a b) := by
  rw [binary, Value.field, value?, Arithmetic.named?_operator]

/-- An expression other than arithmetic is evaluated as it is. -/
theorem value?_plain (document : Value) {e : Value}
    (h : ∀ (op : Arithmetic) l r, e ≠ binary op.operator l r) :
    k.value? document e = (evaluate k.ops document e).map (·.getD .null) := by
  rw [value?.eq_def]
  split
  · rename_i name l r
    cases hop : Arithmetic.named? name with
    | none => rfl
    | some op =>
      have hname : op.operator = name := by simpa using find?_some hop
      exact absurd (by rw [hname]; rfl) (h op l r)
  · rfl

theorem value?_literal (document v : Value) : k.value? document (.field "$literal" v) = some v := by
  have hplain : ∀ (op : Arithmetic) l r, Value.field "$literal" v ≠ binary op.operator l r := by
    intro op l r heq
    have hfields := cons.inj (Value.object.inj heq)
    exact op.operator_ne_literal (Prod.mk.inj hfields.1).1.symm
  rw [k.value?_plain document hplain, denotes_literal v k.ops document]
  rfl

theorem value?_path {name : String} (h : Dotless name) (fields : Fields) :
    k.value? (.object fields) (.path name) = some ((fields.get? name).getD .null) := by
  have hread : evaluate k.ops (.object fields) (.path name) = some (fields.get? name) := by
    have hpath : ("$" ++ name).toList = '$' :: name.toList := by simp
    rw [Value.path, evaluate.eq_def]
    simp only [hpath]
    rw [Meaning.read?, String.ofList_toList, segments_of_dotless h, Value.walk_object]
    cases fields.get? name <;> rfl
  rw [k.value?_plain _ (by rintro op l r ⟨⟩), hread]
  rfl

end Reckoning

/-! ### Terms over no rows -/

namespace Term

/-- Whether the term is a column, an aggregate, a constant, or a sum, difference or product of
such. -/
def isSimple : Term → Bool
  | .column _ | .countAll | .aggregate .. | .const _ | .param .. => true
  | .arith op l r => op.isRing && l.isSimple && r.isSimple
  | _ => false

/-- What is reckoned with in a term. -/
def operands : Term → List Term
  | .arith _ l r => l.operands ++ r.operands
  | t => [t]

end Term

namespace Reckoning

variable (k : Reckoning) (document : Value)

/-- The value that a term is reckoned with over no rows.  A constant is written into an expression,
and so it is what the store makes of it. -/
def operand? : Term → Option Value
  | .arith op l r => do
    let a ← operand? l
    let b ← operand? r
    k.combine op a b
  | .const v => k.value? document (literal v)
  | .param _ v => k.value? document (literal v)
  | t => some t.emptyValue

/-- The value of an item over no rows. -/
def overNoRows? (t : Term) : Option Value :=
  match t.constant? with
  | some v => some v
  | none => k.operand? document t

variable {k document}

/-- Arithmetic on null is null, and on other values it is not. -/
theorem operand?_eq_null_iff : ∀ {t : Term}, t.isSimple = true →
    (k.operand? document t = some .null ↔ (k.operand? document t).isSome = true ∧
      ∃ operand ∈ t.operands, k.operand? document operand = some .null) := by
  intro t hsimple
  induction t using Term.operands.induct with
  | case1 op l r ihl ihr =>
    simp only [Term.isSimple, Bool.and_eq_true] at hsimple
    obtain ⟨⟨hop, hl⟩, hr⟩ := hsimple
    rw [operand?, Term.operands]
    cases ha : k.operand? document l with
    | none => simp
    | some a =>
      cases hb : k.operand? document r with
      | none => simp
      | some b =>
        have hleft : a = .null ↔
            ∃ operand ∈ l.operands, k.operand? document operand = some .null := by
          simpa [ha] using ihl hl
        have hright : b = .null ↔
            ∃ operand ∈ r.operands, k.operand? document operand = some .null := by
          simpa [hb] using ihr hr
        have hnull := k.null_iff op hop a b
        simp only [Option.bind_eq_bind, Option.bind_some, mem_append, or_and_right, exists_or,
          ← hleft, ← hright, ← hnull]
        constructor
        · intro hvalue
          exact ⟨by rw [hvalue]; rfl, hvalue⟩
        · exact And.right
  | case2 t hleaf =>
    have hoperands : t.operands = [t] := by
      cases t with
      | arith op l r => exact absurd rfl (hleaf op l r)
      | _ => rfl
    rw [hoperands]
    constructor
    · intro hvalue
      exact ⟨by rw [hvalue]; rfl, t, mem_singleton_self t, hvalue⟩
    · rintro ⟨-, operand, hmem, hvalue⟩
      rwa [mem_singleton.mp hmem] at hvalue

/-- The value of an item over no rows is that of the empty row exactly if a constant is null, and
arithmetic comes out and has an operand that is null. -/
theorem overNoRows?_eq_iff (h : t.isSimple = true) : k.overNoRows? document t = some t.emptyValue ↔
      (∀ v, t.constant? = some v → v = .null) ∧
      ∀ op l r, t = .arith op l r → (k.overNoRows? document t).isSome = true ∧
        ∃ operand ∈ t.operands, k.operand? document operand = some .null := by
  cases t with
  | arith op l r =>
    have hnull : k.operand? document (.arith op l r) = some .null ↔ _ := operand?_eq_null_iff h
    constructor
    · intro hvalue
      refine ⟨by rintro v ⟨⟩, ?_⟩
      rintro _ _ _ ⟨⟩
      exact hnull.mp hvalue
    · rintro ⟨-, hoperands⟩
      exact hnull.mpr (hoperands op l r rfl)
  | const v | param _ v => simp [overNoRows?, Term.constant?, Term.emptyValue]
  | column _ | countAll | aggregate _ _ _ => simp [overNoRows?, Term.constant?, operand?]
  | _ => cases h

end Reckoning

/-! ### The stages over no rows -/

/-- What a collected field holds over no rows. -/
def Collected.emptyValue : Collected → Value
  | .aggregate call _ => call.emptyValue
  | .first _ => .null

namespace Grouping

/-- The document that stands for a group of no rows, once its fields are complete. -/
def emptyDocument (g : Grouping) : Fields :=
  ("_id", .null) :: g.fields.map fun field => (field.name, field.source.emptyValue)

variable {k : Reckoning}

theorem get?_emptyDocument (hg : g.Sound) {field : GroupField} (hfield : field ∈ g.fields) :
    g.emptyDocument.get? field.name = some field.source.emptyValue := by
  have hne : "_id" ≠ field.name := Ne.symm (hg.fieldDotless field hfield).2
  rw [emptyDocument, Entries.get?_cons, if_neg hne]
  refine lookup_of_mem ?_ (mem_map_of_mem hfield)
  simpa [map_map, Function.comp_def] using hg.fieldNames

/-- Aggregates that are collected together are zero or null together. -/
theorem emptyValue_of_same {call : Term} (hcall : call.isAggregate = true)
    (h : call = t ∨ call.same t = true) :
    t.isAggregate = true ∧ call.emptyValue = t.emptyValue := by
  rcases h with rfl | hsame
  · exact ⟨hcall, rfl⟩
  · cases Term.Same.of_same hsame with
    | countAll => exact ⟨rfl, rfl⟩
    | aggregate fn _ _ => exact ⟨rfl, by cases fn <;> rfl⟩
    | _ => cases hcall

/-- Without keys, what replaces a term is a field that holds its value over no rows. -/
theorem Replaces.holds_empty (hg : g.Sound) (hkeys : g.keys = []) {u : Term} (h : g.Replaces t u) :
    ∃ name, u = .field name ∧ Dotless name ∧
      g.emptyDocument.get? name = some t.emptyValue ∧ (t.fieldPath?.isSome ∨ t.isAggregate) := by
  cases h with
  | key hkey hsame =>
    rw [hkeys] at hkey
    cases hkey
  | @call field call _ accumulator hfield hsource hsame =>
    have hexact := hg.exact field hfield
    rw [hsource] at hexact
    obtain ⟨hcall, hempty⟩ := emptyValue_of_same hexact.1 hsame
    refine ⟨field.name, rfl, (hg.fieldDotless field hfield).1, ?_, .inr hcall⟩
    rw [get?_emptyDocument hg hfield, hsource, ← hempty]
    rfl
  | @column field c hfield hsource =>
    refine ⟨field.name, rfl, (hg.fieldDotless field hfield).1, ?_, .inl rfl⟩
    rw [get?_emptyDocument hg hfield, hsource]
    rfl

/-- What is read from a field is no constant and no arithmetic. -/
theorem operand?_of_field (h : t.fieldPath?.isSome ∨ t.isAggregate) (document : Value) :
    k.operand? document t = some t.emptyValue ∧ t.constant? = none := by
  cases t with
  | column _ | countAll | aggregate _ _ _ | field _ => exact ⟨rfl, rfl⟩
  | _ => rcases h with h | h <;> cases h

end Grouping

/-- The expression of a lowered term has the value over no rows of the term that it stands for. -/
theorem Term.Rewritten.value?_expression {k : Reckoning} (hg : g.Sound) (hkeys : g.keys = []) :
    ∀ {t u : Term} {e : Value}, t.Rewritten g.Replaces true u →
    t.isSimple = true → u.expression = .ok e →
    k.value? (.object g.emptyDocument) e = k.operand? (.object g.emptyDocument) t
  | t, _, _, .replaced h, _, he => by
    obtain ⟨name, rfl, hdotless, hvalue, hread⟩ := h.holds_empty hg hkeys
    cases he
    rw [k.value?_path hdotless, hvalue, (Grouping.operand?_of_field hread _).1]
    rfl
  | _, _, _, .arith op hl hr, hsimple, he => by
    simp only [Term.isSimple, Bool.and_eq_true] at hsimple
    obtain ⟨left, hleft, right, hright, rfl⟩ := bind₂_eq_ok.mp he
    rw [k.value?_binary, hl.value?_expression hg hkeys hsimple.1.2 hleft,
      hr.value?_expression hg hkeys hsimple.2 hright]
    rfl
  | _, _, _, .param _ _, _, he => by
    cases he
    rfl
  | _, _, _, .const _, _, he => by
    cases he
    rfl

/-- The value that an entry of a projection gives to a document with some fields.  A field that is
taken in, and is not there, counts as null. -/
def Reckoning.projected? (k : Reckoning) (fields : Fields) (entry : String × Value) :
    Option Value :=
  match entry.2.chooses? with
  | some true => some ((fields.get? entry.1).getD .null)
  | some false => some .null
  | none => k.value? (.object fields) entry.2

/-- The entry of an output has the value over no rows of the term that the output stands for. -/
theorem Grouping.projected?_output {k : Reckoning} (hg : g.Sound) (hkeys : g.keys = []) {u : Term}
    {name : String} {entry : String × Value} (h : t.Rewritten g.Replaces true u)
    (hsimple : t.isSimple = true) (hentry : projectOutput (name, u) = .ok entry) :
    k.projected? g.emptyDocument entry = k.overNoRows? (.object g.emptyDocument) t := by
  have hcomputed : ∀ e, u.expression = .ok e →
      k.value? (.object g.emptyDocument) e = k.operand? (.object g.emptyDocument) t :=
    fun e he => h.value?_expression hg hkeys hsimple he
  cases h with
  | replaced hreplaces =>
    obtain ⟨field, rfl, hdotless, hvalue, hread⟩ := hreplaces.holds_empty hg hkeys
    obtain ⟨hoperand, hconstant⟩ := operand?_of_field (k := k) hread (.object g.emptyDocument)
    rw [Reckoning.overNoRows?, hconstant]
    rcases projectOutput_eq_ok hentry with ⟨hname, rfl⟩ | ⟨v, hv, rfl⟩
    · obtain rfl : field = name := Term.field.inj hname
      show some ((g.emptyDocument.get? field).getD .null) = _
      rw [hvalue, hoperand]
      rfl
    · cases hv
      exact hcomputed _ rfl
  | arith op hl hr =>
    obtain ⟨e, he, rfl⟩ := bind₁_eq_ok.mp hentry
    have hvalue := hcomputed e he
    obtain ⟨left, -, right, -, rfl⟩ := bind₂_eq_ok.mp he
    exact hvalue
  | param index v | const v =>
    cases hentry
    exact k.value?_literal _ v
  | _ => cases hsimple

/-- The entry of an output is found under its name. -/
theorem Grouping.get?_projectStage (hnames : g.outputs.keys.Nodup) {stage : Value}
    (h : g.projectStage = .ok stage) : ∃ fields : Fields,
      stage = .field "$project" (.object fields) ∧
      ∀ name out, g.outputs.get? name = some out →
        ∃ e, fields.get? name = some e ∧ projectOutput (name, out) = .ok (name, e) := by
  obtain ⟨entries, hentries, rfl⟩ := bind₁_eq_ok.mp h
  refine ⟨_, rfl, fun name out hout => ?_⟩
  have hall := forall₂_of_mapM hentries
  have hnodup : (entries.reverse.map (·.1)).Nodup := by
    rw [map_reverse, nodup_reverse]
    show (Entries.keys entries).Nodup
    rw [keys_projected hall]
    exact hnames
  have houtput : (name, out) ∈ g.outputs := by
    obtain ⟨before, after, heq, -⟩ := lookup_eq_some_iff.mp hout
    exact heq ▸ mem_append_right _ mem_cons_self
  obtain ⟨entry, hmem, hentry⟩ := exists_result_of_mapM hentries (name, out) houtput
  obtain ⟨e, rfl⟩ : ∃ e, entry = (name, e) := by
    rcases projectOutput_eq_ok hentry with ⟨-, rfl⟩ | ⟨e, -, rfl⟩
    · exact ⟨_, rfl⟩
    · exact ⟨e, rfl⟩
  refine ⟨e, ?_, hentry⟩
  have hfind := find?_of_nodup hnodup (mem_reverse.mpr hmem)
  rw [Entries.get?_insertAll, hfind]
  rfl

/-- A plan without GROUP BY has no keys. -/
theorem Planned.keys_eq_nil {columns : Columns} (hnames : columns.names.Nodup)
    {log : List (Term × String)} (h : Planned columns g log) (himplicit : g.explicit = false) :
    g.keys = [] := by
  -- a step changes neither the keys nor whether there is a clause
  induction h with
  | @explicit r c after g g' hread hadd =>
    have hexplicit : g'.explicit = g.explicit := congrArg Prod.snd (Grouping.place_addOutputs hadd)
    rw [himplicit, (Grouping.read_covers hread).2 g rfl] at hexplicit
    cases hexplicit
  | implicit hadd =>
    obtain ⟨⟨_, _⟩, hrun, hadd⟩ := bind_eq_ok.mp hadd
    cases hadd
    have hvalid := Grouping.valid_implicit
    exact (Grouping.addItems_spec (hvalid _) hnames (fun _ _ => not_mem_nil) hrun).2.1.keys
  | @lower g g' log t u h hrun ih =>
    have hexplicit : g'.explicit = g.explicit :=
      congrArg Prod.snd ((Grouping.steady_lower (P := fun _ => True) (fun _ _ => trivial) g).2
        u g' hrun).1
    rw [(Grouping.inv_lower (h.inv hnames).1 hrun).2.keys]
    exact ih (hexplicit ▸ himplicit)
  | @expose g g' log t name h hrun ih =>
    have hexplicit : g'.explicit = g.explicit :=
      congrArg Prod.snd ((Grouping.steady_expose (P := fun _ => True) (fun _ _ => trivial) g).2
        name g' hrun).1
    rw [(Grouping.yields_expose columns t g name g' (h.inv hnames).1 hrun).2.1.keys]
    exact ih (hexplicit ▸ himplicit)

/-- **The row of a group of no rows.**  Take a plan without GROUP BY for a SELECT list of columns,
aggregates, constants, and sums, differences and products of such, and any way to reckon.  In the
document where every count is zero and everything else that is collected is null, the last stage
gives each item its value over no rows: a constant is itself, and arithmetic is reckoned.  The
empty row has that value for an item exactly if a constant is null, and arithmetic comes out and
has an operand that is null. -/
theorem Planned.empty_row_iff {r : Reading} {tokens : List Token} {start : Nat} {columns : Columns}
    (hcolumns : Columns.read r tokens start = .ok columns) {g : Grouping}
    {log : List (Term × String)} (h : Planned columns g log) (himplicit : g.explicit = false)
    (hsimple : ∀ item ∈ columns.items, item.term.isSimple = true) {stages : List Value}
    (hstages : Clause.stages g = .ok stages) (k : Reckoning) :
    ∃ fields : Fields, stages.getLast? = some (.field "$project" (.object fields)) ∧
      List.Forall₂ (fun item value => ∃ e, fields.get? item.name = some e ∧
          k.projected? g.emptyDocument (item.name, e) =
            k.overNoRows? (.object g.emptyDocument) item.term ∧
          (k.projected? g.emptyDocument (item.name, e) = some value ↔
            (∀ v, item.term.constant? = some v → v = .null) ∧
            ∀ op left right, item.term = .arith op left right →
              (k.projected? g.emptyDocument (item.name, e)).isSome = true ∧
              ∃ operand ∈ item.term.operands,
                k.operand? (.object g.emptyDocument) operand = some .null))
        columns.items (Grouping.emptyRow columns) := by
  have hnames := Columns.read_names hcolumns
  obtain ⟨⟨hvalid, hitems⟩, -⟩ := h.inv hnames
  have hkeys := h.keys_eq_nil hnames himplicit
  obtain ⟨group, -, hstages⟩ := Compiled.bind_eq_ok.mp hstages
  obtain ⟨project, hproject, hstages⟩ := Compiled.bind_eq_ok.mp hstages
  cases hstages
  obtain ⟨fields, rfl, hfields⟩ := Grouping.get?_projectStage hvalid.outputNames hproject
  refine ⟨fields, ?_, ?_⟩
  · rw [← List.cons_append, List.getLast?_concat]
  · rw [Grouping.emptyRow, List.forall₂_map_right_iff, List.forall₂_same]
    intro item hitem
    obtain ⟨out, hout, hlowers⟩ := hitems item hitem
    obtain ⟨e, he, hentry⟩ := hfields item.name out hout
    have hvalue : k.projected? g.emptyDocument (item.name, e) =
        k.overNoRows? (.object g.emptyDocument) item.term :=
      Grouping.projected?_output hvalid.toSound hkeys (hlowers g (.refl g)) (hsimple item hitem)
        hentry
    refine ⟨e, he, hvalue, ?_⟩
    rw [hvalue]
    exact Reckoning.overNoRows?_eq_iff (hsimple item hitem)

/-! ### A constant beside a count

The list has a count, the number one, and a column plus one. -/

namespace Grouping.BesideCount

open Planned.Sample (reading)

def tokens : List Token := [.aliased (.call "COUNT" [[.name none "a"]]) "n", .punctuation ',',
    .aliased (.literal (.int 1)) "one", .punctuation ',',
    .aliased (.operation (.name none "a") .add (.literal (.int 1))) "next"]

def a : Term := .column ⟨"t", "a", "a"⟩

def columns : Columns where
  items := [⟨.aggregate .count false a, "n", some "n"⟩, ⟨.const (.int 1), "one", some "one"⟩,
    ⟨.arith .add a (.const (.int 1)), "next", some "next"⟩]
  span := ⟨1, 6⟩

def accumulator : Value := .field "$sum" (.field "$cond" (.object
    [("if", binary "$gt" (.path "a") .null), ("then", .int 1), ("else", .int 0)]))

def plan : Grouping where
  fields := [⟨"count_a", .aggregate (.aggregate .count false a) accumulator⟩, ⟨"a", .first "a"⟩]
  outputs := [("n", .field "count_a"), ("one", .const (.int 1)),
    ("next", .arith .add (.field "a") (.const (.int 1)))]
  explicit := false
  span := ⟨8, 8⟩

set_option maxRecDepth 8000 in
theorem reads : Columns.read reading tokens 1 = .ok columns := by with_unfolding_all rfl

set_option maxRecDepth 8000 in
theorem planned : Planned columns plan [] :=
  .implicit (show (Grouping.implicit 8).addOutputs columns = .ok plan by with_unfolding_all rfl)

/-- Whole numbers are reckoned, and anything with null is null. -/
def whole : Reckoning where
  combine op a b :=
    match a, b with
    | .null, _ => some .null
    | _, .null => some .null
    | .int a, .int b =>
      match op with
      | .add => some (.int (a + b))
      | .sub => some (.int (a - b))
      | .mul => some (.int (a * b))
      | .div | .mod => none
    | _, _ => none
  null_iff := by
    intro op hop a b
    cases op <;> cases a <;> cases b <;> simp_all [Arithmetic.isRing]
  ops := refused

theorem simple : ∀ item ∈ columns.items, item.term.isSimple = true := all_eq_true.mp (by decide)

/-- The stages stand for a row with the number, and the empty row has null for it. -/
theorem empty_row_loses_constant :
    Columns.read reading tokens 1 = .ok columns ∧ Planned columns plan [] ∧
      emptyRow columns = [.int 0, .null, .null] ∧
      ∃ stages, Clause.stages plan = .ok stages ∧
        ∃ fields : Fields, stages.getLast? = some (.field "$project" (.object fields)) ∧
          (∃ e, fields.get? "one" = some e ∧
            whole.projected? plan.emptyDocument ("one", e) = some (.int 1)) ∧
          ∃ e, fields.get? "next" = some e ∧
            whole.projected? plan.emptyDocument ("next", e) = some .null := by
  obtain ⟨stages, hstages⟩ : ∃ stages, Clause.stages plan = .ok stages := ⟨_, rfl⟩
  obtain ⟨fields, hlast, hrow⟩ := planned.empty_row_iff reads rfl simple hstages whole
  obtain ⟨-, hrow⟩ := List.forall₂_cons.mp hrow
  obtain ⟨⟨one, hone, hvalue, -⟩, hrow⟩ := List.forall₂_cons.mp hrow
  obtain ⟨⟨next, hnext, hsum, -⟩, -⟩ := List.forall₂_cons.mp hrow
  refine ⟨reads, planned, rfl, stages, hstages, fields, hlast, ⟨one, hone, hvalue⟩, next, hnext, ?_⟩
  have hnumber : whole.operand? (.object plan.emptyDocument) (.const (.int 1)) =
      some (.int 1) := by
    show whole.value? _ (.int 1) = _
    rw [whole.value?_plain _ (by rintro op l r ⟨⟩), evaluate_of_isInert _ _ _ rfl]
    rfl
  rw [hsum]
  show (do
    let b ← whole.operand? (.object plan.emptyDocument) (.const (.int 1))
    whole.combine .add .null b) = _
  rw [hnumber]
  rfl

end Grouping.BesideCount
end DocSql
