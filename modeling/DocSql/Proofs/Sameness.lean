import DocSql.Term.Basic

/-! # Equality of values and terms

The equality of values and of terms is decided by functions.  It is reflexive on what names each
field of a document once, and it is transitive.  The equality of terms is also given by rules, one
for each form of a term, so that what follows from it is proved by induction on how it holds.
-/
namespace DocSql
open List

/-! ### Values -/

mutual

/-- Whether every document in a value names each of its fields once. -/
def Value.namesOnce : Value → Bool
  | .array items => itemsNameOnce items
  | .object fields => decide (fields.map (·.1)).Nodup && fieldsNameOnce fields
  | _ => true

/-- Whether the items of an array do so. -/
def itemsNameOnce : List Value → Bool
  | [] => true
  | v :: vs => v.namesOnce && itemsNameOnce vs

/-- Whether the values of fields do so. -/
def fieldsNameOnce : List (String × Value) → Bool
  | [] => true
  | (_, v) :: rest => v.namesOnce && fieldsNameOnce rest

end

theorem lookup_of_mem {fields : List (String × Value)} (hnodup : (fields.map (·.1)).Nodup)
    {k : String} {v : Value} (hmem : (k, v) ∈ fields) : fields.lookup k = some v := by
  induction fields with
  | nil => cases hmem
  | cons f rest ih =>
    obtain ⟨k', v'⟩ := f
    simp only [map_cons, nodup_cons] at hnodup
    rcases mem_cons.mp hmem with heq | hrest
    · cases heq
      exact lookup_cons_self
    · have hne : (k == k') = false := by
        rw [beq_eq_false_iff_ne]
        rintro rfl
        exact hnodup.1 (mem_map_of_mem hrest)
      rw [lookup_cons, hne]
      exact ih hnodup.2 hrest

mutual

/-- A value that names each field once equals itself. -/
theorem Value.same_refl : ∀ {v : Value}, v.namesOnce = true → v.same v = true
  | .null, _ => rfl
  | .bool _, _ => beq_self_eq_true _
  | .int _, _ => beq_self_eq_true _
  | .float x, _ => x.same_refl
  | .string _, _ => beq_self_eq_true _
  | .array items, h => sameItems_refl h
  | .object fields, h => by
    simp only [Value.namesOnce, Bool.and_eq_true, decide_eq_true_eq] at h
    simp only [Value.same, beq_self_eq_true, Bool.true_and]
    exact sameFields_refl h.2 fun k v hmem => lookup_of_mem h.1 hmem

theorem sameItems_refl : ∀ {vs : List Value}, itemsNameOnce vs = true → Value.sameItems vs vs = true
  | [], _ => rfl
  | v :: vs, h => by
    simp only [itemsNameOnce, Bool.and_eq_true] at h
    simp only [Value.sameItems, Value.same_refl h.1, sameItems_refl h.2, Bool.and_self]

/-- Fields that a document looks up as they are, each with a value that equals itself. -/
theorem sameFields_refl : ∀ {fields other : List (String × Value)}, fieldsNameOnce fields = true →
    (∀ k v, (k, v) ∈ fields → other.lookup k = some v) → Value.sameFields fields other = true
  | [], _, _, _ => rfl
  | (k, v) :: rest, other, h, hother => by
    simp only [fieldsNameOnce, Bool.and_eq_true] at h
    have hk : other.lookup k = some v := hother k v mem_cons_self
    have hrest := sameFields_refl h.2 fun k v hmem => hother k v (mem_cons_of_mem _ hmem)
    simp only [Value.sameFields, hk, Value.same_refl h.1, hrest, Bool.and_self]

end

/-- A field that is looked up has an equal one in the other document. -/
theorem lookup_of_sameFields {fields other : List (String × Value)}
    (h : Value.sameFields fields other = true) {k : String} {v : Value}
    (hlookup : fields.lookup k = some v) : ∃ w, other.lookup k = some w ∧ v.same w = true := by
  induction fields with
  | nil => cases hlookup
  | cons f rest ih =>
    obtain ⟨k', v'⟩ := f
    simp only [Value.sameFields, Bool.and_eq_true] at h
    rw [lookup_cons] at hlookup
    cases hk : k == k' with
    | true =>
      rw [hk] at hlookup
      cases hlookup
      cases beq_iff_eq.mp hk
      cases hother : other.lookup k with
      | none =>
        rw [hother] at h
        cases h.1
      | some w =>
        rw [hother] at h
        exact ⟨w, rfl, h.1⟩
    | false =>
      rw [hk] at hlookup
      exact ih h.2 hlookup

theorem Double.same_trans {x y z : Double} (h : x.same y = true) (h' : y.same z = true) :
    x.same z = true := by
  cases x <;> cases y <;> cases z <;> simp [Double.same] at * <;> grind

mutual

theorem Value.same_trans : ∀ {a b c : Value}, a.same b = true → b.same c = true → a.same c = true
  | .null, b, _, h, h' => by
    cases b with
    | null => exact h'
    | _ => cases h
  | .bool _, b, _, h, h' => by
    cases b with
    | bool _ => exact eq_of_beq h ▸ h'
    | _ => cases h
  | .int _, b, _, h, h' => by
    cases b with
    | int _ => exact eq_of_beq h ▸ h'
    | _ => cases h
  | .float _, b, c, h, h' => by
    cases b with
    | float _ =>
      cases c with
      | float _ => exact Double.same_trans h h'
      | _ => cases h'
    | _ => cases h
  | .string _, b, _, h, h' => by
    cases b with
    | string _ => exact eq_of_beq h ▸ h'
    | _ => cases h
  | .array as, b, c, h, h' => by
    cases b with
    | array bs =>
      cases c with
      | array cs => exact sameItems_trans h h'
      | _ => cases h'
    | _ => cases h
  | .object as, b, c, h, h' => by
    cases b with
    | object bs =>
      cases c with
      | object cs =>
        simp only [Value.same, Bool.and_eq_true, beq_iff_eq] at h h' ⊢
        exact ⟨h.1.trans h'.1, sameFields_trans h.2 h'.2⟩
      | _ => cases h'
    | _ => cases h

theorem sameItems_trans : ∀ {as bs cs : List Value}, Value.sameItems as bs = true →
    Value.sameItems bs cs = true → Value.sameItems as cs = true
  | [], [], [], _, _ => rfl
  | a :: as, b :: bs, c :: cs, h, h' => by
    simp only [Value.sameItems, Bool.and_eq_true] at h h' ⊢
    exact ⟨Value.same_trans h.1 h'.1, sameItems_trans h.2 h'.2⟩

theorem sameFields_trans : ∀ {as bs cs : List (String × Value)}, Value.sameFields as bs = true →
    Value.sameFields bs cs = true → Value.sameFields as cs = true
  | [], _, _, _, _ => rfl
  | (k, v) :: rest, bs, cs, h, h' => by
    simp only [Value.sameFields, Bool.and_eq_true] at h ⊢
    refine ⟨?_, sameFields_trans h.2 h'⟩
    cases hk : bs.lookup k with
    | none =>
      rw [hk] at h
      cases h.1
    | some w =>
      rw [hk] at h
      obtain ⟨x, hx, hwx⟩ := lookup_of_sameFields h' hk
      rw [hx]
      exact Value.same_trans h.1 hwx

end

/-! ### The rules of equality -/

mutual

/-- The rules by which terms are equal. -/
inductive Term.Same : Term → Term → Prop
  | column (c : Column) : Term.Same (.column c) (.column c)
  | compare {l l' r r' : Term} (op : Comparison) (hl : l.Same l') (hr : r.Same r') :
    Term.Same (.compare l op r) (.compare l' op r')
  | countAll : Term.Same .countAll .countAll
  | aggregate {a a' : Term} (fn : Aggregate) (distinct : Bool) (ha : a.Same a') :
    Term.Same (.aggregate fn distinct a) (.aggregate fn distinct a')
  | dateTrunc {a a' : Term} (unit : DateUnit) (ha : a.Same a') :
    Term.Same (.dateTrunc unit a) (.dateTrunc unit a')
  | arith {l l' r r' : Term} (op : Arithmetic) (hl : l.Same l') (hr : r.Same r') :
    Term.Same (.arith op l r) (.arith op l' r')
  | caseOf {arms arms' : Arms} (h : arms.Same arms') : Term.Same (.caseOf arms) (.caseOf arms')
  | param {v v' : Value} (index : Nat) (h : v.same v' = true) :
    Term.Same (.param index v) (.param index v')
  | const {v v' : Value} (h : v.same v' = true) : Term.Same (.const v) (.const v')
  | field (name : String) : Term.Same (.field name) (.field name)

/-- The rules by which branches are equal. -/
inductive Arms.Same : Arms → Arms → Prop
  | done : Arms.Same .done .done
  | otherwise {t t' : Term} (h : t.Same t') : Arms.Same (.otherwise t) (.otherwise t')
  | arm {c c' : Condition} {t t' : Term} {rest rest' : Arms} (hc : c.Same c') (ht : t.Same t')
    (hrest : rest.Same rest') : Arms.Same (.arm c t rest) (.arm c' t' rest')

/-- The rules by which conditions are equal. -/
inductive Condition.Same : Condition → Condition → Prop
  | all {cs cs' : List Condition} (h : SameConditions cs cs') : Condition.Same (.all cs) (.all cs')
  | any {cs cs' : List Condition} (h : SameConditions cs cs') : Condition.Same (.any cs) (.any cs')
  | compare {l l' r r' : Term} (op : Comparison) (hl : l.Same l') (hr : r.Same r') :
    Condition.Same (.compare l op r) (.compare l' op r')
  | member {t t' : Term} {m m' : Members} (negated : Bool) (ht : t.Same t')
    (hm : m.Same m') : Condition.Same (.member t m negated) (.member t' m' negated)
  | isNull {t t' : Term} (negated : Bool) (h : t.Same t') :
    Condition.Same (.isNull t negated) (.isNull t' negated)
  | between {t t' low low' high high' : Term} (negated : Bool) (ht : t.Same t')
    (hlow : low.Same low') (hhigh : high.Same high') :
    Condition.Same (.between t low high negated) (.between t' low' high' negated)
  | like {t t' p p' : Term} (ignoreCase negated : Bool) (ht : t.Same t') (hp : p.Same p') :
    Condition.Same (.like t p ignoreCase negated) (.like t' p' ignoreCase negated)
  | truth {t t' : Term} (negated : Bool) (h : t.Same t') :
    Condition.Same (.truth t negated) (.truth t' negated)

/-- The rules by which what a term is looked for in is equal. -/
inductive Members.Same : Members → Members → Prop
  | list {ts ts' : List Term} (h : SameTerms ts ts') : Members.Same (.list ts) (.list ts')
  | subselect {s s' : Subselect} (h : s.same s' = true) :
    Members.Same (.subselect s) (.subselect s')
  | nested (name : String) : Members.Same (.nested name) (.nested name)

/-- The rules by which lists of terms are equal. -/
inductive SameTerms : List Term → List Term → Prop
  | nil : SameTerms [] []
  | cons {t t' : Term} {ts ts' : List Term} (ht : t.Same t') (hts : SameTerms ts ts') :
    SameTerms (t :: ts) (t' :: ts')

/-- The rules by which lists of conditions are equal. -/
inductive SameConditions : List Condition → List Condition → Prop
  | nil : SameConditions [] []
  | cons {c c' : Condition} {cs cs' : List Condition} (hc : c.Same c')
    (hcs : SameConditions cs cs') : SameConditions (c :: cs) (c' :: cs')

end

mutual

theorem Term.Same.of_same : ∀ {a b : Term}, a.same b = true → a.Same b
  | .column c, .column c', h => eq_of_beq h ▸ .column c
  | .compare l op r, .compare l' op' r', h => by
    simp only [Term.same, Bool.and_eq_true, beq_iff_eq] at h
    obtain ⟨⟨hl, rfl⟩, hr⟩ := h
    exact .compare op (.of_same hl) (.of_same hr)
  | .countAll, .countAll, _ => .countAll
  | .aggregate fn d a, .aggregate fn' d' a', h => by
    simp only [Term.same, Bool.and_eq_true, beq_iff_eq] at h
    obtain ⟨⟨rfl, rfl⟩, ha⟩ := h
    exact .aggregate fn d (.of_same ha)
  | .dateTrunc u a, .dateTrunc u' a', h => by
    simp only [Term.same, Bool.and_eq_true, beq_iff_eq] at h
    obtain ⟨rfl, ha⟩ := h
    exact .dateTrunc u (.of_same ha)
  | .arith op l r, .arith op' l' r', h => by
    simp only [Term.same, Bool.and_eq_true, beq_iff_eq] at h
    obtain ⟨⟨rfl, hl⟩, hr⟩ := h
    exact .arith op (.of_same hl) (.of_same hr)
  | .caseOf arms, .caseOf arms', h => .caseOf (Arms.Same.of_same h)
  | .param i v, .param i' v', h => by
    simp only [Term.same, Bool.and_eq_true, beq_iff_eq] at h
    obtain ⟨rfl, hv⟩ := h
    exact .param i hv
  | .const v, .const v', h => .const h
  | .field n, .field n', h => eq_of_beq h ▸ .field n

theorem Arms.Same.of_same : ∀ {a b : Arms}, a.same b = true → a.Same b
  | .done, .done, _ => .done
  | .otherwise t, .otherwise t', h => .otherwise (Term.Same.of_same h)
  | .arm c t rest, .arm c' t' rest', h => by
    simp only [Arms.same, Bool.and_eq_true] at h
    obtain ⟨⟨hc, ht⟩, hrest⟩ := h
    exact .arm (Condition.Same.of_same hc) (Term.Same.of_same ht) (.of_same hrest)

theorem Condition.Same.of_same : ∀ {a b : Condition}, a.same b = true → a.Same b
  | .all cs, .all cs', h => .all (SameConditions.of_same h)
  | .any cs, .any cs', h => .any (SameConditions.of_same h)
  | .compare l op r, .compare l' op' r', h => by
    simp only [Condition.same, Bool.and_eq_true, beq_iff_eq] at h
    obtain ⟨⟨hl, rfl⟩, hr⟩ := h
    exact .compare op (Term.Same.of_same hl) (Term.Same.of_same hr)
  | .member t m n, .member t' m' n', h => by
    simp only [Condition.same, Bool.and_eq_true, beq_iff_eq] at h
    obtain ⟨⟨ht, hm⟩, rfl⟩ := h
    exact .member n (Term.Same.of_same ht) (Members.Same.of_same hm)
  | .isNull t n, .isNull t' n', h => by
    simp only [Condition.same, Bool.and_eq_true, beq_iff_eq] at h
    obtain ⟨ht, rfl⟩ := h
    exact .isNull n (Term.Same.of_same ht)
  | .between t a b n, .between t' a' b' n', h => by
    simp only [Condition.same, Bool.and_eq_true, beq_iff_eq] at h
    obtain ⟨⟨⟨ht, ha⟩, hb⟩, rfl⟩ := h
    exact .between n (Term.Same.of_same ht) (Term.Same.of_same ha) (Term.Same.of_same hb)
  | .like t p i n, .like t' p' i' n', h => by
    simp only [Condition.same, Bool.and_eq_true, beq_iff_eq] at h
    obtain ⟨⟨⟨ht, hp⟩, rfl⟩, rfl⟩ := h
    exact .like i n (Term.Same.of_same ht) (Term.Same.of_same hp)
  | .truth t n, .truth t' n', h => by
    simp only [Condition.same, Bool.and_eq_true, beq_iff_eq] at h
    obtain ⟨ht, rfl⟩ := h
    exact .truth n (Term.Same.of_same ht)

theorem Members.Same.of_same : ∀ {a b : Members}, a.same b = true → a.Same b
  | .list ts, .list ts', h => .list (SameTerms.of_same h)
  | .subselect s, .subselect s', h => .subselect h
  | .nested n, .nested n', h => eq_of_beq h ▸ .nested n

theorem SameTerms.of_same : ∀ {a b : List Term}, sameTerms a b = true → SameTerms a b
  | [], [], _ => .nil
  | t :: ts, t' :: ts', h => by
    simp only [sameTerms, Bool.and_eq_true] at h
    exact .cons (Term.Same.of_same h.1) (.of_same h.2)

theorem SameConditions.of_same : ∀ {a b : List Condition}, sameConditions a b = true →
    SameConditions a b
  | [], [], _ => .nil
  | c :: cs, c' :: cs', h => by
    simp only [sameConditions, Bool.and_eq_true] at h
    exact .cons (Condition.Same.of_same h.1) (.of_same h.2)

end

mutual

theorem Term.Same.same : ∀ {a b : Term}, a.Same b → a.same b = true
  | _, _, .column _ => beq_self_eq_true _
  | _, _, .compare _ hl hr | _, _, .arith _ hl hr => by simp [Term.same, hl.same, hr.same]
  | _, _, .countAll => rfl
  | _, _, .aggregate _ _ ha | _, _, .dateTrunc _ ha => by simp [Term.same, ha.same]
  | _, _, .caseOf h => Arms.Same.same h
  | _, _, .param _ hv => by simp [Term.same, hv]
  | _, _, .const hv => hv
  | _, _, .field _ => beq_self_eq_true _

theorem Arms.Same.same : ∀ {a b : Arms}, a.Same b → a.same b = true
  | _, _, .done => rfl
  | _, _, .otherwise h => Term.Same.same h
  | _, _, .arm hc ht hrest => by
    simp [Arms.same, Condition.Same.same hc, Term.Same.same ht, hrest.same]

theorem Condition.Same.same : ∀ {a b : Condition}, a.Same b → a.same b = true
  | _, _, .all h => SameConditions.same h
  | _, _, .any h => SameConditions.same h
  | _, _, .compare _ hl hr
  | _, _, .like _ _ hl hr => by simp [Condition.same, Term.Same.same hl, Term.Same.same hr]
  | _, _, .member _ ht hm => by simp [Condition.same, Term.Same.same ht, Members.Same.same hm]
  | _, _, .isNull _ h | _, _, .truth _ h => by simp [Condition.same, Term.Same.same h]
  | _, _, .between _ ht hlow hhigh => by
    simp [Condition.same, Term.Same.same ht, Term.Same.same hlow, Term.Same.same hhigh]

theorem Members.Same.same : ∀ {a b : Members}, a.Same b → a.same b = true
  | _, _, .list h => SameTerms.same h
  | _, _, .subselect h => h
  | _, _, .nested _ => beq_self_eq_true _

theorem SameTerms.same : ∀ {a b : List Term}, SameTerms a b → sameTerms a b = true
  | _, _, .nil => rfl
  | _, _, .cons ht hts => by simp [sameTerms, Term.Same.same ht, hts.same]

theorem SameConditions.same : ∀ {a b : List Condition}, SameConditions a b →
    sameConditions a b = true
  | _, _, .nil => rfl
  | _, _, .cons hc hcs => by simp [sameConditions, Condition.Same.same hc, hcs.same]

end

theorem Subselect.same_trans {a b c : Subselect} (h : a.same b = true) (h' : b.same c = true) :
    a.same c = true := by
  simp only [Subselect.same, Bool.and_eq_true, beq_iff_eq] at h h' ⊢
  exact ⟨⟨h.1.1.trans h'.1.1, sameItems_trans h.1.2 h'.1.2⟩, h.2.trans h'.2⟩

mutual

theorem Term.Same.trans : ∀ {a b c : Term}, a.Same b → b.Same c → a.Same c
  | _, _, _, .column c, .column _ => .column c
  | _, _, _, .compare op hl hr, .compare _ hl' hr' => .compare op (hl.trans hl') (hr.trans hr')
  | _, _, _, .countAll, .countAll => .countAll
  | _, _, _, .aggregate fn d ha, .aggregate _ _ ha' => .aggregate fn d (ha.trans ha')
  | _, _, _, .dateTrunc u ha, .dateTrunc _ ha' => .dateTrunc u (ha.trans ha')
  | _, _, _, .arith op hl hr, .arith _ hl' hr' => .arith op (hl.trans hl') (hr.trans hr')
  | _, _, _, .caseOf h, .caseOf h' => .caseOf (Arms.Same.trans h h')
  | _, _, _, .param i hv, .param _ hv' => .param i (Value.same_trans hv hv')
  | _, _, _, .const hv, .const hv' => .const (Value.same_trans hv hv')
  | _, _, _, .field n, .field _ => .field n

theorem Arms.Same.trans : ∀ {a b c : Arms}, a.Same b → b.Same c → a.Same c
  | _, _, _, .done, .done => .done
  | _, _, _, .otherwise h, .otherwise h' => .otherwise (Term.Same.trans h h')
  | _, _, _, .arm hc ht hrest, .arm hc' ht' hrest' =>
    .arm (Condition.Same.trans hc hc') (Term.Same.trans ht ht') (hrest.trans hrest')

theorem Condition.Same.trans : ∀ {a b c : Condition}, a.Same b → b.Same c → a.Same c
  | _, _, _, .all h, .all h' => .all (SameConditions.trans h h')
  | _, _, _, .any h, .any h' => .any (SameConditions.trans h h')
  | _, _, _, .compare op hl hr, .compare _ hl' hr' =>
    .compare op (Term.Same.trans hl hl') (Term.Same.trans hr hr')
  | _, _, _, .member n ht hm, .member _ ht' hm' =>
    .member n (Term.Same.trans ht ht') (Members.Same.trans hm hm')
  | _, _, _, .isNull n h, .isNull _ h' => .isNull n (Term.Same.trans h h')
  | _, _, _, .between n ht hlow hhigh, .between _ ht' hlow' hhigh' =>
    .between n (Term.Same.trans ht ht') (Term.Same.trans hlow hlow') (Term.Same.trans hhigh hhigh')
  | _, _, _, .like i n ht hp, .like _ _ ht' hp' =>
    .like i n (Term.Same.trans ht ht') (Term.Same.trans hp hp')
  | _, _, _, .truth n h, .truth _ h' => .truth n (Term.Same.trans h h')

theorem Members.Same.trans : ∀ {a b c : Members}, a.Same b → b.Same c → a.Same c
  | _, _, _, .list h, .list h' => .list (SameTerms.trans h h')
  | _, _, _, .subselect h, .subselect h' => .subselect (Subselect.same_trans h h')
  | _, _, _, .nested n, .nested _ => .nested n

theorem SameTerms.trans : ∀ {a b c : List Term}, SameTerms a b → SameTerms b c → SameTerms a c
  | _, _, _, .nil, .nil => .nil
  | _, _, _, .cons ht hts, .cons ht' hts' => .cons (Term.Same.trans ht ht') (hts.trans hts')

theorem SameConditions.trans : ∀ {a b c : List Condition}, SameConditions a b →
    SameConditions b c → SameConditions a c
  | _, _, _, .nil, .nil => .nil
  | _, _, _, .cons hc hcs, .cons hc' hcs' => .cons (Condition.Same.trans hc hc') (hcs.trans hcs')

end

/-! ### Terms that equal themselves -/

mutual

/-- Whether every document in a term names each of its fields once. -/
def Term.namesOnce : Term → Bool
  | .compare l _ r => l.namesOnce && r.namesOnce
  | .aggregate _ _ arg => arg.namesOnce
  | .dateTrunc _ arg => arg.namesOnce
  | .arith _ l r => l.namesOnce && r.namesOnce
  | .caseOf arms => arms.namesOnce
  | .param _ v => v.namesOnce
  | .const v => v.namesOnce
  | .column _ | .countAll | .field _ => true

/-- Whether the documents in branches do so. -/
def Arms.namesOnce : Arms → Bool
  | .done => true
  | .otherwise t => t.namesOnce
  | .arm c t rest => c.namesOnce && t.namesOnce && rest.namesOnce

/-- Whether the documents in a condition do so. -/
def Condition.namesOnce : Condition → Bool
  | .all cs => conditionsNameOnce cs
  | .any cs => conditionsNameOnce cs
  | .compare l _ r => l.namesOnce && r.namesOnce
  | .member t m _ => t.namesOnce && m.namesOnce
  | .isNull t _ => t.namesOnce
  | .between t low high _ => t.namesOnce && low.namesOnce && high.namesOnce
  | .like t p _ _ => t.namesOnce && p.namesOnce
  | .truth t _ => t.namesOnce

/-- Whether the documents in what a term is looked for in do so. -/
def Members.namesOnce : Members → Bool
  | .list ts => termsNameOnce ts
  | .subselect s => itemsNameOnce s.pipeline
  | .nested _ => true

/-- Whether the documents in terms do so. -/
def termsNameOnce : List Term → Bool
  | [] => true
  | t :: ts => t.namesOnce && termsNameOnce ts

/-- Whether the documents in conditions do so. -/
def conditionsNameOnce : List Condition → Bool
  | [] => true
  | c :: cs => c.namesOnce && conditionsNameOnce cs

end

mutual

/-- A term that names each field of its documents once equals itself. -/
theorem Term.Same.refl : ∀ {t : Term}, t.namesOnce = true → t.Same t
  | .column c, _ => .column c
  | .compare _ op _, h =>
    have h := Bool.and_eq_true_iff.mp h
    .compare op (.refl h.1) (.refl h.2)
  | .countAll, _ => .countAll
  | .aggregate fn d _, h => .aggregate fn d (.refl h)
  | .dateTrunc u _, h => .dateTrunc u (.refl h)
  | .arith op _ _, h =>
    have h := Bool.and_eq_true_iff.mp h
    .arith op (.refl h.1) (.refl h.2)
  | .caseOf _, h => .caseOf (Arms.Same.refl h)
  | .param i _, h => .param i (Value.same_refl h)
  | .const _, h => .const (Value.same_refl h)
  | .field n, _ => .field n

theorem Arms.Same.refl : ∀ {arms : Arms}, arms.namesOnce = true → arms.Same arms
  | .done, _ => .done
  | .otherwise _, h => .otherwise (Term.Same.refl h)
  | .arm _ _ _, h => by
    simp only [Arms.namesOnce, Bool.and_eq_true] at h
    exact .arm (Condition.Same.refl h.1.1) (Term.Same.refl h.1.2) (.refl h.2)

theorem Condition.Same.refl : ∀ {c : Condition}, c.namesOnce = true → c.Same c
  | .all _, h => .all (SameConditions.refl h)
  | .any _, h => .any (SameConditions.refl h)
  | .compare _ op _, h =>
    have h := Bool.and_eq_true_iff.mp h
    .compare op (Term.Same.refl h.1) (Term.Same.refl h.2)
  | .member _ _ n, h =>
    have h := Bool.and_eq_true_iff.mp h
    .member n (Term.Same.refl h.1) (Members.Same.refl h.2)
  | .isNull _ n, h => .isNull n (Term.Same.refl h)
  | .between _ _ _ n, h => by
    simp only [Condition.namesOnce, Bool.and_eq_true] at h
    exact .between n (Term.Same.refl h.1.1) (Term.Same.refl h.1.2) (Term.Same.refl h.2)
  | .like _ _ i n, h =>
    have h := Bool.and_eq_true_iff.mp h
    .like i n (Term.Same.refl h.1) (Term.Same.refl h.2)
  | .truth _ n, h => .truth n (Term.Same.refl h)

theorem Members.Same.refl : ∀ {m : Members}, m.namesOnce = true → m.Same m
  | .list _, h => .list (SameTerms.refl h)
  | .subselect s, h => .subselect (by
    have hpipeline : Value.sameItems s.pipeline s.pipeline = true := sameItems_refl h
    simp [Subselect.same, hpipeline])
  | .nested n, _ => .nested n

theorem SameTerms.refl : ∀ {ts : List Term}, termsNameOnce ts = true → SameTerms ts ts
  | [], _ => .nil
  | _ :: _, h =>
    have h := Bool.and_eq_true_iff.mp h
    .cons (Term.Same.refl h.1) (.refl h.2)

theorem SameConditions.refl : ∀ {cs : List Condition}, conditionsNameOnce cs = true →
    SameConditions cs cs
  | [], _ => .nil
  | _ :: _, h =>
    have h := Bool.and_eq_true_iff.mp h
    .cons (Condition.Same.refl h.1) (.refl h.2)

end

/-! ### Columns -/

mutual

/-- The columns of a term outside aggregates and lists of values. -/
def Term.columns : Term → List Column
  | .column c => [c]
  | .compare l _ r => l.columns ++ r.columns
  | .dateTrunc _ arg => arg.columns
  | .arith _ l r => l.columns ++ r.columns
  | .caseOf arms => arms.columns
  | _ => []

/-- The columns of branches outside aggregates and lists of values. -/
def Arms.columns : Arms → List Column
  | .done => []
  | .otherwise t => t.columns
  | .arm c t rest => c.columns ++ t.columns ++ rest.columns

/-- The columns of a condition outside aggregates and lists of values. -/
def Condition.columns : Condition → List Column
  | .all cs => conditionColumns cs
  | .any cs => conditionColumns cs
  | .compare l _ r => l.columns ++ r.columns
  | .member t _ _ => t.columns
  | .isNull t _ => t.columns
  | .between t low high _ => t.columns ++ low.columns ++ high.columns
  | .like t p _ _ => t.columns ++ p.columns
  | .truth t _ => t.columns

/-- The columns of conditions outside aggregates and lists of values. -/
def conditionColumns : List Condition → List Column
  | [] => []
  | c :: cs => c.columns ++ conditionColumns cs

end

end DocSql
