import DocSql.Proofs.GroupingPlan

/-! # Grouping is faithful

After a grouping a query reads keys and collected fields in place of the terms of its rows.  Reading
those fields back as what they stand for gives the terms of the rows again.  This holds of every plan
that can be reached: from the keys and the SELECT list by any number of lowered and exposed terms.
-/
namespace DocSql
open List

variable {g : Grouping} {t : Term}

/-! ### Reading fields back -/

/-- An entry is found under a name that no other has. -/
theorem find?_of_nodup {α : Type} {name : α → String} {xs : List α} (h : (xs.map name).Nodup)
    {x : α} (hx : x ∈ xs) : (xs.find? fun y => name y == name x) = some x := by
  induction xs with
  | nil => cases hx
  | cons y ys ih =>
    obtain ⟨hy, hys⟩ := nodup_cons.mp h
    rcases mem_cons.mp hx with rfl | hmem
    · exact find?_cons_of_pos (beq_self_eq_true _)
    · have hne : name y ≠ name x := fun heq => hy (heq ▸ mem_map_of_mem hmem)
      rw [find?_cons_of_neg (by simpa using hne)]
      exact ih hys hmem

/-- The term over rows that is collected.  What is carried is known by its path, and `owner` gives the
column of a path. -/
def Collected.term (owner : String → Column) : Collected → Term
  | .aggregate call _ => call
  | .first path => .column (owner path)

namespace Grouping

/-- The term over rows that a field of the grouped documents stands for. -/
def source? (g : Grouping) (owner : String → Column) (name : String) : Option Term :=
  match g.keys.find? fun key => "_id." ++ key.name == name with
  | some key => some key.term
  | none =>
    (g.fields.find? fun field => field.name == name).map fun field => field.source.term owner

/-- What a node is read back as, where it is a field. -/
def restoreNode (g : Grouping) (owner : String → Column) : Term → Id (Option Term)
  | .field name => g.source? owner name
  | _ => none

variable {owner : String → Column}

theorem restore_field {name : String} (h : g.source? owner name = some t) :
    (Term.field name).transform (g.restoreNode owner) true = t := by
  simp only [Term.transform, replaceOr, restoreNode, h]
  rfl

theorem source?_key (hg : g.Sound) {key : GroupKey} (hkey : key ∈ g.keys) :
    g.source? owner ("_id." ++ key.name) = some key.term := by
  have hnodup : (g.keys.map fun key => "_id." ++ key.name).Nodup := by
    have hinj : Function.Injective fun name => "_id." ++ name :=
      fun _ _ h => (String.append_right_inj _).mp h
    simpa [map_map, Function.comp_def] using hg.keyNames.map hinj
  have hfind := find?_of_nodup hnodup hkey
  simp only [source?, hfind]

/-- The name of a collected field is not that of a key. -/
theorem source?_field (hg : g.Sound) {field : GroupField} (hfield : field ∈ g.fields) :
    g.source? owner field.name = some (field.source.term owner) := by
  have hkeys : (g.keys.find? fun key => "_id." ++ key.name == field.name) = none := by
    refine find?_eq_none.mpr fun key _ heq => ?_
    have hdotless := (hg.fieldDotless field hfield).1
    rw [← beq_iff_eq.mp heq] at hdotless
    exact hdotless (by simp)
  have hfind := find?_of_nodup hg.fieldNames hfield
  simp only [source?, hkeys, hfind, Option.map_some]

/-- A field that replaces a term is read back as that term, up to equality. -/
theorem Replaces.restored (hg : g.Sound) {t' u : Term} (h : g.Replaces t u) (hsame : t.Same t')
    (howner : ∀ c ∈ t'.columns, owner c.path = c) :
    (u.transform (g.restoreNode owner) true : Term).Same t' := by
  cases h with
  | key hkey hequal =>
    rw [restore_field (source?_key hg hkey)]
    exact (Term.Same.of_same hequal).trans hsame
  | @call field call _ accumulator hfield hsource hequal =>
    have hcall : g.source? owner field.name = some call := by
      rw [source?_field hg hfield, hsource, Collected.term]
    rw [restore_field hcall]
    rcases hequal with rfl | hequal
    · exact hsame
    · exact (Term.Same.of_same hequal).trans hsame
  | @column field c hfield hsource =>
    cases hsame
    have hcolumn : g.source? owner field.name = some (.column c) := by
      rw [source?_field hg hfield, hsource, Collected.term, howner c (mem_singleton.mpr rfl)]
    rw [restore_field hcolumn]
    exact .column c

end Grouping

section

variable {owner : String → Column}

mutual

/-- A rewritten term is read back as every term that equals the one it was. -/
theorem Term.Rewritten.restored (hg : g.Sound) : ∀ {t t' u : Term},
    Term.Rewritten g.Replaces true t u → t.Same t' → (∀ c ∈ t'.columns, owner c.path = c) →
    (u.transform (g.restoreNode owner) true : Term).Same t'
  | _, _, _, .replaced h, hsame, howner => h.restored hg hsame howner
  | _, _, _, .compare op hl hr, .compare _ sl sr, howner =>
    .compare op (hl.restored hg sl fun c hc => howner c (mem_append_left _ hc))
      (hr.restored hg sr fun c hc => howner c (mem_append_right _ hc))
  | _, _, _, .arith op hl hr, .arith _ sl sr, howner =>
    .arith op (hl.restored hg sl fun c hc => howner c (mem_append_left _ hc))
      (hr.restored hg sr fun c hc => howner c (mem_append_right _ hc))
  | _, _, _, .dateTrunc unit _ ha, .dateTrunc _ sa, howner =>
    .dateTrunc unit (ha.restored hg sa howner)
  | _, _, _, .caseOf h, .caseOf s, howner => .caseOf (Arms.Rewritten.restored hg h s howner)
  | _, _, _, .param _ _, hsame, _ => hsame
  | _, _, _, .const _, hsame, _ => hsame

theorem Arms.Rewritten.restored (hg : g.Sound) : ∀ {a a' b : Arms},
    Arms.Rewritten g.Replaces true a b → a.Same a' → (∀ c ∈ a'.columns, owner c.path = c) →
    (b.transform (g.restoreNode owner) true : Arms).Same a'
  | _, _, _, .done, .done, _ => .done
  | _, _, _, .otherwise h, .otherwise s, howner => .otherwise (Term.Rewritten.restored hg h s howner)
  | _, _, _, .arm hc ht hrest, .arm sc st srest, howner =>
    .arm
      (Condition.Rewritten.restored hg hc sc fun c h =>
        howner c (mem_append_left _ (mem_append_left _ h)))
      (Term.Rewritten.restored hg ht st fun c h =>
        howner c (mem_append_left _ (mem_append_right _ h)))
      (hrest.restored hg srest fun c h => howner c (mem_append_right _ h))

theorem Condition.Rewritten.restored (hg : g.Sound) : ∀ {a a' b : Condition},
    Condition.Rewritten g.Replaces true a b → a.Same a' → (∀ c ∈ a'.columns, owner c.path = c) →
    (b.transform (g.restoreNode owner) true : Condition).Same a'
  | _, _, _, .all h, .all s, howner => .all (RewrittenAll.restored hg h s howner)
  | _, _, _, .any h, .any s, howner => .any (RewrittenAll.restored hg h s howner)
  | _, _, _, .compare op hl hr, .compare _ sl sr, howner =>
    .compare op (Term.Rewritten.restored hg hl sl fun c h => howner c (mem_append_left _ h))
      (Term.Rewritten.restored hg hr sr fun c h => howner c (mem_append_right _ h))
  | _, _, _, .member _ n h, .member _ s sm, howner =>
    .member n (Term.Rewritten.restored hg h s howner) sm
  | _, _, _, .isNull n h, .isNull _ s, howner => .isNull n (Term.Rewritten.restored hg h s howner)
  | _, _, _, .between n ht hlow hhigh, .between _ st slow shigh, howner =>
    .between n
      (Term.Rewritten.restored hg ht st fun c h =>
        howner c (mem_append_left _ (mem_append_left _ h)))
      (Term.Rewritten.restored hg hlow slow fun c h =>
        howner c (mem_append_left _ (mem_append_right _ h)))
      (Term.Rewritten.restored hg hhigh shigh fun c h => howner c (mem_append_right _ h))
  | _, _, _, .like i n ht hp, .like _ _ st sp, howner =>
    .like i n (Term.Rewritten.restored hg ht st fun c h => howner c (mem_append_left _ h))
      (Term.Rewritten.restored hg hp sp fun c h => howner c (mem_append_right _ h))
  | _, _, _, .truth n h, .truth _ s, howner => .truth n (Term.Rewritten.restored hg h s howner)

theorem RewrittenAll.restored (hg : g.Sound) : ∀ {a a' b : List Condition},
    RewrittenAll g.Replaces true a b → SameConditions a a' →
    (∀ c ∈ conditionColumns a', owner c.path = c) →
    SameConditions (transformAll (g.restoreNode owner) true b : List Condition) a'
  | _, _, _, .nil, .nil, _ => .nil
  | _, _, _, .cons hc hcs, .cons sc scs, howner =>
    .cons (Condition.Rewritten.restored hg hc sc fun c h => howner c (mem_append_left _ h))
      (hcs.restored hg scs fun c h => howner c (mem_append_right _ h))

end

end

/-! ### Reachable plans -/

/-- The plans that can be reached with a SELECT list, with the terms that have been exposed so far and
the names they were exposed under. -/
inductive Planned (columns : Columns) : Grouping → List (Term × String) → Prop
  | explicit {r : Reading} {c after : TokenCursor} {g g' : Grouping}
    (hread : Grouping.read? r columns c = .ok (some g, after))
    (hadd : g.addOutputs columns = .ok g') : Planned columns g' []
  | implicit {position : Nat} {g' : Grouping}
    (hadd : (Grouping.implicit position).addOutputs columns = .ok g') : Planned columns g' []
  | lower {g g' : Grouping} {log : List (Term × String)} {t u : Term} (h : Planned columns g log)
    (hrun : (Grouping.lower t).run g = .ok (u, g')) : Planned columns g' log
  | expose {g g' : Grouping} {log : List (Term × String)} {t : Term} {name : String}
    (h : Planned columns g log) (hrun : (Grouping.expose columns t).run g = .ok (name, g')) :
    Planned columns g' ((t, name) :: log)

namespace Grouping

/-- The plan that GROUP BY starts with is valid, and so is the one without GROUP BY. -/
theorem valid_read {r : Reading} {columns : Columns} {c after : TokenCursor}
    (h : Grouping.read? r columns c = .ok (some g, after)) : g.Valid ∧ g.outputs = [] := by
  obtain ⟨-, hnone, -⟩ | ⟨_, keys, -, hkeys, -, hsome⟩ := read?_eq_ok h
  · cases hnone
  · cases hsome
    obtain ⟨hfresh, hdotless⟩ := readKeys_names hkeys
    exact ⟨{ keyNames := hfresh.nodup, keyDotless := hdotless,
             fieldNames := .nil, fieldDotless := nofun, sources := .nil, exact := nofun,
             outputNames := .nil, lowered := nofun, hidden := nofun }, rfl⟩

theorem valid_implicit (position : Nat) : (Grouping.implicit position).Valid where
  keyNames := .nil
  keyDotless := nofun
  fieldNames := .nil
  fieldDotless := nofun
  sources := .nil
  exact := nofun
  outputNames := .nil
  lowered := nofun
  hidden := nofun

/-- With the SELECT list as its outputs, a plan is ready to expose terms. -/
theorem inv_addOutputs {columns : Columns} (hnames : columns.names.Nodup) {g' : Grouping}
    (hg : g.Valid) (hempty : g.outputs = []) (hadd : g.addOutputs columns = .ok g') :
    (exposing columns).inv g' := by
  obtain ⟨⟨_, _⟩, hrun, hg'⟩ := Compiled.bind_eq_ok.mp hadd
  cases hg'
  obtain ⟨hvalid, -, hitems⟩ := addItems_spec hg hnames (by simp [hempty]) hrun
  exact ⟨hvalid, hitems⟩

/-- Lowering a term keeps a plan ready to expose terms. -/
theorem inv_lower {columns : Columns} {g' : Grouping} {u : Term} (hg : (exposing columns).inv g)
    (hrun : (Grouping.lower t).run g = .ok (u, g')) : (exposing columns).inv g' ∧ g.Extends g' := by
  obtain ⟨hsound, hcollects, -⟩ := lower_spec hg.1.toSound hrun
  exact ⟨⟨hg.1.of_collects hsound hcollects,
    fun item hitem => (hg.2 item hitem).mono hcollects.extends⟩, hcollects.extends⟩

end Grouping

/-- In a reachable plan every exposed term, unless it is an alias, has its output. -/
theorem Planned.inv {columns : Columns} (hnames : columns.names.Nodup) {log : List (Term × String)}
    (h : Planned columns g log) : (Grouping.exposing columns).inv g ∧
      ∀ entry ∈ log, (∀ label, entry.1 ≠ .field label) → g.HoldsSame entry.2 entry.1 := by
  induction h with
  | explicit hread hadd =>
    obtain ⟨hvalid, hempty⟩ := Grouping.valid_read hread
    exact ⟨Grouping.inv_addOutputs hnames hvalid hempty hadd, nofun⟩
  | implicit hadd =>
    exact ⟨Grouping.inv_addOutputs hnames (Grouping.valid_implicit _) rfl hadd, nofun⟩
  | lower _ hrun ih =>
    obtain ⟨hinv, hext⟩ := Grouping.inv_lower ih.1 hrun
    exact ⟨hinv, fun entry hentry hne => (ih.2 entry hentry hne).mono hext⟩
  | expose _ hrun ih =>
    obtain ⟨hinv, hext, hexposed⟩ := Grouping.yields_expose columns _ _ _ _ ih.1 hrun
    refine ⟨hinv, fun entry hentry hne => ?_⟩
    rcases mem_cons.mp hentry with rfl | hentry
    · exact (hexposed _ (.refl _)).2 hne
    · exact (ih.2 entry hentry hne).mono hext

namespace Grouping

end Grouping

namespace Planned.Sample

def key : Term := .column ⟨"t", "k.a", "k.a"⟩
def value : Term := .column ⟨"t", "v.x", "v.x"⟩
def sum : Term := .aggregate .sum false value
def average : Term := .aggregate .avg false value

def reading : Reading where
  scope := { params := [], tables := [("t", "t")], left := some "t" }
  aliases := false
  subselect _ := undecodable .expectedSelect

def list : List Token := [.aliased (.name none "k.a") "key", .punctuation ',',
    .operation (.call "SUM" [[.name none "v.x"]]) .add (.name none "v.x")]

def columns : Columns where
  items := [⟨key, "key", some "key"⟩, ⟨.arith .add sum value, "expr_1", none⟩]
  span := ⟨1, 4⟩

/-- The plan after the SELECT list. -/
def listed : Grouping where
  keys := [⟨"key", key⟩]
  fields := [⟨"sum_v_x", .aggregate sum (.field "$sum" (.path "v.x"))⟩, ⟨"v__x", .first "v.x"⟩]
  outputs := [("key", .field "_id.key"), ("expr_1", .arith .add (.field "sum_v_x") (.field "v__x"))]
  explicit := true
  span := ⟨0, 2⟩

/-- The plan after the exposed sum. -/
def summed : Grouping :=
  { listed with
    outputs := listed.outputs ++ [("_sum_v_x", .field "sum_v_x")]
    hidden := [(sum, "_sum_v_x")] }

/-- The plan after the exposed average. -/
def averaged : Grouping :=
  { summed with
    fields := summed.fields ++ [⟨"avg_v_x", .aggregate average (.field "$avg" (.path "v.x"))⟩]
    outputs := summed.outputs ++ [("_avg_v_x", .field "avg_v_x")]
    hidden := summed.hidden ++ [(average, "_avg_v_x")] }

set_option maxRecDepth 4000 in
theorem planned : Planned columns averaged [(average, "_avg_v_x"), (sum, "_sum_v_x")] := by
  have hkeys : Grouping.readKeys reading columns [] 0 [[.name none "k.a"]] =
      .ok [⟨"key", key⟩] := by with_unfolding_all rfl
  have hread : Grouping.read? reading columns ⟨[.keyword .GROUP_BY, .name none "k.a"], 0⟩ =
      .ok (some { keys := [⟨"key", key⟩], explicit := true, span := ⟨0, 2⟩ },
        ⟨[.keyword .GROUP_BY, .name none "k.a"], 2⟩) := by
    show (Grouping.readKeys reading columns [] 0 [[.name none "k.a"]] >>= _) = _
    rw [hkeys]
    rfl
  have hadd : Grouping.addOutputs { keys := [⟨"key", key⟩], explicit := true, span := ⟨0, 2⟩ }
      columns = .ok listed := by with_unfolding_all rfl
  have hsum : (Grouping.expose columns sum).run listed = .ok ("_sum_v_x", summed) := by
    with_unfolding_all rfl
  have haverage : (Grouping.expose columns average).run summed = .ok ("_avg_v_x", averaged) := by
    with_unfolding_all rfl
  exact ((Planned.explicit hread hadd).expose hsum).expose haverage

end Planned.Sample

end DocSql
