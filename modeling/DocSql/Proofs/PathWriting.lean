import DocSql.Proofs.FreshNames
import Mathlib.Data.List.Induction
import Mathlib.Data.List.Pairwise

/-! # Writing along paths and reading them back

A value that is written along a path is read back along it.  What was there before stays readable as
long as the two paths part somewhere.  Where one path leads on from the other, the later of the two
writes wins: it replaces what stood above it, or adds a field to it.

Values that are written one after the other can therefore all be read back exactly if, wherever a
path leads on from another, the value at the upper end already holds the one at the lower end
(`Coherent`).
-/
namespace DocSql
open List

variable {path : List String} {fields : Fields}

/-! ### Segments -/

theorem intercalate_splitDots (cs : List Char) : ['.'].intercalate (splitDots cs) = cs := by
  induction cs with
  | nil => rfl
  | cons c cs ih =>
    rw [splitDots]
    cases hsplit : splitDots cs with
    | nil => exact absurd hsplit (splitDots_ne_nil cs)
    | cons piece rest =>
      rw [hsplit] at ih
      split
      · rename_i hdot
        rw [intercalate_cons_cons, ih, hdot]
        rfl
      · cases rest with
        | nil => simpa using ih
        | cons next rest =>
          rw [intercalate_cons_cons] at ih ⊢
          exact congrArg (c :: ·) ih

/-- Different paths have different segments. -/
theorem segments_injective {p q : String} (h : segments p = segments q) : p = q := by
  have hpieces : splitDots p.toList = splitDots q.toList :=
    map_injective_iff.mpr (fun _ _ => String.ofList_injective) h
  have hchars := congrArg (['.'].intercalate ·) hpieces
  simpa only [intercalate_splitDots, String.toList_inj] using hchars

theorem segments_ne_nil (path : String) : segments path ≠ [] :=
  fun h => splitDots_ne_nil _ (map_eq_nil_iff.mp h)

theorem dotless_of_mem_segments {path name : String} (h : name ∈ segments path) : Dotless name := by
  obtain ⟨piece, hpiece, rfl⟩ := mem_map.mp h
  simpa [Dotless] using splitDots_dotless _ piece hpiece

theorem splitDots_of_dotless {cs : List Char} (h : '.' ∉ cs) : splitDots cs = [cs] := by
  induction cs with
  | nil => rfl
  | cons c cs ih =>
    obtain ⟨hc, hcs⟩ := not_or.mp (mt mem_cons.mpr h)
    rw [splitDots, if_neg (Ne.symm hc), ih hcs]

theorem segments_of_dotless {name : String} (h : Dotless name) : segments name = [name] := by
  simp [segments, splitDots_of_dotless h]

/-! ### Reading along segments -/

namespace Value

theorem walk_append (first rest : List String) (v : Value) :
    walk (first ++ rest) v = (walk first v).bind (walk rest) := by
  induction first generalizing v with
  | nil => rfl
  | cons name first ih =>
    rw [cons_append, walk, walk, Option.bind_assoc]
    exact congrArg _ (funext ih)

theorem walk_object (name : String) (rest : List String) (fields : Fields) :
    walk (name :: rest) (.object fields) = (fields.get? name).bind (walk rest) := rfl

/-- Only below a document is there anything to read. -/
theorem walk_of_not_object {v : Value} (h : ∀ fields, v ≠ .object fields) (hpath : path ≠ []) :
    walk path v = none := by
  cases path with
  | nil => exact absurd rfl hpath
  | cons name rest =>
    cases v with
    | object fields => exact absurd rfl (h fields)
    | _ => rfl

end Value

/-! ### Writing along segments -/

namespace Fields

open Value (walk)

/-- The document under a name; the one without fields where there is none. -/
def child (fields : Fields) (name : String) : Fields :=
  match fields.get? name with
  | some (.object child) => child
  | _ => []

theorem insertAlong_cons (fields : Fields) (name : String) {rest : List String} (h : rest ≠ [])
    (value : Value) : fields.insertAlong (name :: rest) value =
      fields.insert name (.object (insertAlong (fields.child name) rest value)) := by
  cases rest with
  | nil => exact absurd rfl h
  | cons next rest => rfl

/-- The document under a name reads as what stands there. -/
theorem walk_child (fields : Fields) (name : String) (h : path ≠ []) :
    walk path (.object (fields.child name)) = (fields.get? name).bind (walk path) := by
  have hempty : walk path (.object []) = none := by
    cases path with
    | nil => exact absurd rfl h
    | cons next rest => rfl
  unfold child
  cases hname : fields.get? name with
  | none => exact hempty
  | some v =>
    by_cases hv : ∃ inner, v = .object inner
    · obtain ⟨inner, rfl⟩ := hv
      rfl
    · have hother : ∀ inner, v ≠ .object inner := fun inner heq => hv ⟨inner, heq⟩
      rw [Option.bind_some, Value.walk_of_not_object hother h]
      cases v with
      | object inner => exact absurd rfl (hother inner)
      | _ => exact hempty

/-- What is written along a path is read along it. -/
theorem walk_insertAlong (h : path ≠ []) (fields : Fields) (value : Value) :
    walk path (.object (fields.insertAlong path value)) = some value := by
  induction path generalizing fields with
  | nil => exact absurd rfl h
  | cons name rest ih =>
    cases rest with
    | nil =>
      rw [insertAlong, Value.walk_object, Entries.get?_insert_self]
      rfl
    | cons next rest =>
      rw [insertAlong_cons fields name (cons_ne_nil _ _), Value.walk_object,
        Entries.get?_insert_self, Option.bind_some, ih (cons_ne_nil _ _)]

/-- Writing along one path leaves alone what is read along another, if neither leads on from the
other. -/
theorem walk_insertAlong_of_apart {other : List String} (h : ¬ path <+: other)
    (h' : ¬ other <+: path) (fields : Fields) (value : Value) :
    walk other (.object (fields.insertAlong path value)) = walk other (.object fields) := by
  induction path generalizing fields other with
  | nil => exact absurd nil_prefix h
  | cons name rest ih =>
    cases other with
    | nil => exact absurd nil_prefix h'
    | cons name' rest' =>
      by_cases hname : name = name'
      · subst hname
        rw [cons_prefix_cons, not_and] at h h'
        have hrest : rest ≠ [] := by
          rintro rfl
          exact h rfl nil_prefix
        have hrest' : rest' ≠ [] := by
          rintro rfl
          exact h' rfl nil_prefix
        rw [insertAlong_cons fields name hrest, Value.walk_object, Entries.get?_insert_self,
          Option.bind_some, ih (h rfl) (h' rfl), walk_child fields name hrest', Value.walk_object]
      · have hkeeps (v : Value) : walk (name' :: rest') (.object (fields.insert name v)) =
            walk (name' :: rest') (.object fields) := by
          rw [Value.walk_object, Value.walk_object, Entries.get?_insert_of_ne _ _ hname]
        cases rest with
        | nil => exact hkeeps value
        | cons next rest =>
          rw [insertAlong_cons fields name (cons_ne_nil _ _)]
          exact hkeeps _

/-- Writing what is there already changes nothing. -/
theorem insertAlong_of_walk {value : Value} (h : walk path (.object fields) = some value) :
    fields.insertAlong path value = fields := by
  induction path generalizing fields with
  | nil => rfl
  | cons name rest ih =>
    rw [Value.walk_object] at h
    cases rest with
    | nil =>
      obtain ⟨v, hv, hvalue⟩ := Option.bind_eq_some_iff.mp h
      cases hvalue
      exact Entries.insert_eq_self hv
    | cons next rest =>
      have hchild := (walk_child fields name (cons_ne_nil next rest)).trans h
      rw [insertAlong_cons fields name (cons_ne_nil _ _), ih hchild]
      refine Entries.insert_eq_self ?_
      obtain ⟨v, hv, hvalue⟩ := Option.bind_eq_some_iff.mp h
      cases v with
      | object inner => simp only [child, hv]
      | _ => cases hvalue

end Fields

/-! ### One path after the other -/

/-- Neither path leads on from the other. -/
def Apart (p q : String) : Prop := ¬ segments p <+: segments q ∧ ¬ segments q <+: segments p

/-- The path `q` leads on from `p`, along the segments `rest`. -/
def LeadsOn (p q : String) (rest : List String) : Prop :=
  rest ≠ [] ∧ segments q = segments p ++ rest

/-- Two different paths part, or one of them leads on from the other. -/
theorem apart_or_leadsOn {p q : String} (h : p ≠ q) :
    Apart p q ∨ (∃ rest, LeadsOn p q rest) ∨ ∃ rest, LeadsOn q p rest := by
  have hmore {p q : String} (hne : p ≠ q) (hp : segments p <+: segments q) :
      ∃ rest, LeadsOn p q rest := by
    obtain ⟨rest, hrest⟩ := hp
    refine ⟨rest, ?_, hrest.symm⟩
    rintro rfl
    exact hne (segments_injective ((append_nil _).symm.trans hrest))
  by_cases hp : segments p <+: segments q
  · exact .inr (.inl (hmore h hp))
  · by_cases hq : segments q <+: segments p
    · exact .inr (.inr (hmore h.symm hq))
    · exact .inl ⟨hp, hq⟩

/-- Wherever a path leads on from another, the value of the other has its value there. -/
def Coherent (entries : List (String × Value)) : Prop :=
  ∀ e ∈ entries, ∀ e' ∈ entries, ∀ rest, LeadsOn e.1 e'.1 rest → e.2.walk rest = some e'.2

namespace Fields

open Value (walk)

variable {entries : List (String × Value)}

/-- The values written along their paths, one after the other. -/
def insertPaths (fields : Fields) (entries : List (String × Value)) : Fields :=
  entries.foldl (fun fields e => fields.insertPath e.1 e.2) fields

theorem insertPaths_append (fields : Fields) (entries : List (String × Value))
    (new : String × Value) :
    fields.insertPaths (entries ++ [new]) =
      (fields.insertPaths entries).insertPath new.1 new.2 := by
  simp [insertPaths, foldl_append]

/-- A value stays readable when another one is written, if the two agree wherever their paths
meet. -/
theorem walk_insertPath {e new : String × Value} (hne : e.1 ≠ new.1)
    (hold : walk (segments e.1) (.object fields) = some e.2)
    (hupper : ∀ rest, LeadsOn e.1 new.1 rest → e.2.walk rest = some new.2)
    (hlower : ∀ rest, LeadsOn new.1 e.1 rest → new.2.walk rest = some e.2) :
    walk (segments e.1) (.object (fields.insertPath new.1 new.2)) = some e.2 := by
  rcases apart_or_leadsOn hne with hapart | ⟨rest, hrest⟩ | ⟨rest, hrest⟩
  · exact (walk_insertAlong_of_apart hapart.2 hapart.1 fields new.2).trans hold
  · have hnew : walk (segments new.1) (.object fields) = some new.2 := by
      rw [hrest.2, Value.walk_append, hold]
      exact hupper rest hrest
    rw [insertPath, insertAlong_of_walk hnew, hold]
  · rw [hrest.2, Value.walk_append, insertPath, walk_insertAlong (segments_ne_nil _)]
    exact hlower rest hrest

/-- Values whose paths agree wherever they meet are all read back. -/
theorem walk_insertPaths (hnodup : (entries.map (·.1)).Nodup) (hcoherent : Coherent entries)
    (fields : Fields) :
    ∀ e ∈ entries, walk (segments e.1) (.object (fields.insertPaths entries)) = some e.2 := by
  induction entries using reverseRecOn with
  | nil => exact forall_mem_nil _
  | append_singleton entries new ih =>
    rw [map_append, nodup_append] at hnodup
    obtain ⟨hnodup, -, hnew⟩ := hnodup
    have holds := ih hnodup fun e he e' he' =>
      hcoherent e (mem_append_left _ he) e' (mem_append_left _ he')
    intro e he
    rw [insertPaths_append]
    rcases mem_append.mp he with hold | hlast
    · have hne : e.1 ≠ new.1 := hnew _ (mem_map_of_mem hold) _ (mem_singleton.mpr rfl)
      have hmem : new ∈ entries ++ [new] := mem_append_right _ (mem_singleton.mpr rfl)
      exact walk_insertPath hne (holds e hold) (hcoherent e he new hmem) (hcoherent new hmem e he)
    · cases mem_singleton.mp hlast
      exact walk_insertAlong (segments_ne_nil _) _ _

/-- A value whose path parts from all others is read back, whatever the others are. -/
theorem walk_insertPaths_of_apart (hnodup : (entries.map (·.1)).Nodup) {e : String × Value}
    (he : e ∈ entries) (hapart : ∀ e' ∈ entries, e'.1 ≠ e.1 → Apart e.1 e'.1) (fields : Fields) :
    walk (segments e.1) (.object (fields.insertPaths entries)) = some e.2 := by
  induction entries using reverseRecOn with
  | nil => exact absurd he not_mem_nil
  | append_singleton entries new ih =>
    rw [map_append, nodup_append] at hnodup
    obtain ⟨hnodup, -, hnew⟩ := hnodup
    rw [insertPaths_append]
    rcases mem_append.mp he with hold | hlast
    · have hne : e.1 ≠ new.1 := hnew _ (mem_map_of_mem hold) _ (mem_singleton.mpr rfl)
      obtain ⟨hdown, hup⟩ := hapart new (mem_append_right _ (mem_singleton.mpr rfl)) hne.symm
      refine (walk_insertAlong_of_apart hup hdown _ new.2).trans ?_
      exact ih hnodup hold fun e' he' => hapart e' (mem_append_left _ he')
    · cases mem_singleton.mp hlast
      exact walk_insertAlong (segments_ne_nil _) _ _

/-- Values that are all read back agree wherever their paths meet. -/
theorem coherent_of_walk (document : Value)
    (h : ∀ e ∈ entries, walk (segments e.1) document = some e.2) : Coherent entries := by
  intro e he e' he' rest hrest
  have hlower := h e' he'
  rwa [hrest.2, Value.walk_append, h e he] at hlower

/-! ### Names of fields -/

/-- Writing along a path names fields by its segments. -/
theorem keys_insertAlong {value : Value} {key : String}
    (h : key ∈ (fields.insertAlong path value).keys) : key ∈ fields.keys ∨ key ∈ path := by
  have hinsert {name : String} {v : Value} (hkey : key ∈ (fields.insert name v).keys) :
      key ∈ fields.keys ∨ key = name := by
    rw [Entries.keys_insert] at hkey
    split at hkey
    · exact .inl hkey
    · simpa using hkey
  cases path with
  | nil => exact .inl h
  | cons name rest =>
    have hkey : key ∈ fields.keys ∨ key = name := by
      cases rest with
      | nil => exact hinsert h
      | cons next rest =>
        rw [insertAlong_cons fields name (cons_ne_nil _ _)] at h
        exact hinsert h
    refine hkey.imp_right ?_
    rintro rfl
    exact mem_cons_self

theorem dotless_keys_insertPaths (hfields : ∀ key ∈ fields.keys, Dotless key)
    (entries : List (String × Value)) : ∀ key ∈ (fields.insertPaths entries).keys, Dotless key := by
  induction entries generalizing fields with
  | nil => exact hfields
  | cons e entries ih =>
    refine ih fun key hkey => ?_
    rcases keys_insertAlong hkey with hold | hnew
    · exact hfields key hold
    · exact dotless_of_mem_segments hnew

/-- In a document whose names have no dots, a path is read along its segments. -/
theorem lookup_eq_walk (h : ∀ key ∈ fields.keys, Dotless key) (path : String) :
    Value.lookup (.object fields) path = walk (segments path) (.object fields) := by
  unfold Value.lookup
  split
  · rename_i value hget
    have hdotless := h path (Entries.mem_keys_of_get? hget)
    rw [segments_of_dotless hdotless, Value.walk_object]
    exact (congrArg (Option.bind · (walk [])) (show fields.get? path = some value from hget)).symm
  · rfl

/-- A path of a document that was written along paths is read along its segments. -/
theorem lookup_insertPaths (entries : List (String × Value)) (path : String) :
    Value.lookup (.object (insertPaths [] entries)) path =
      walk (segments path) (.object (insertPaths [] entries)) :=
  lookup_eq_walk (dotless_keys_insertPaths (forall_mem_nil _) entries) path

end Fields

/-! ### Unrelated paths, in any order -/

/-- The path `q` goes on behind a dot where `p` ends. -/
def DottedPrefix (p q : String) : Prop := (p ++ ".").toList <+: q.toList

instance (p q : String) : Decidable (DottedPrefix p q) := inferInstanceAs (Decidable (_ <+: _))

theorem intercalate_append (sep : List Char) {first rest : List (List Char)} (h : first ≠ [])
    (h' : rest ≠ []) : sep.intercalate (first ++ rest) =
      sep.intercalate first ++ sep ++ sep.intercalate rest := by
  induction first with
  | nil => exact absurd rfl h
  | cons piece first ih =>
    cases first with
    | nil =>
      obtain ⟨next, rest, rfl⟩ := exists_cons_of_ne_nil h'
      simp [intercalate_cons_cons]
    | cons next first =>
      have hmore := ih (cons_ne_nil _ _)
      simp only [cons_append, intercalate_cons_cons] at hmore ⊢
      rw [hmore]
      simp only [append_assoc]

/-- A path leads on from another only behind a dot. -/
theorem LeadsOn.dottedPrefix {p q : String} {rest : List String} (h : LeadsOn p q rest) :
    DottedPrefix p q := by
  have hpieces : splitDots q.toList = splitDots p.toList ++ rest.map String.toList := by
    simpa [segments, Function.comp_def] using congrArg (map String.toList) h.2
  have hrest : rest.map String.toList ≠ [] := mt map_eq_nil_iff.mp h.1
  have htext := intercalate_append ['.'] (splitDots_ne_nil p.toList) hrest
  rw [← hpieces, intercalate_splitDots, intercalate_splitDots] at htext
  exact ⟨_, by rw [htext, String.toList_append]; rfl⟩

/-- Neither path is the other one or a dotted prefix of it. -/
def Unrelated (p q : String) : Prop := p ≠ q ∧ ¬ DottedPrefix p q ∧ ¬ DottedPrefix q p

instance (p q : String) : Decidable (Unrelated p q) := inferInstanceAs (Decidable (_ ∧ _))

theorem Unrelated.symm {p q : String} (h : Unrelated p q) : Unrelated q p :=
  ⟨h.1.symm, h.2.2, h.2.1⟩

theorem Unrelated.apart {p q : String} (h : Unrelated p q) : Apart p q := by
  rcases apart_or_leadsOn h.1 with hapart | ⟨rest, hrest⟩ | ⟨rest, hrest⟩
  · exact hapart
  · exact absurd hrest.dottedPrefix h.2.1
  · exact absurd hrest.dottedPrefix h.2.2

/-- Values under paths of which none is another one or a dotted prefix of it are all read back from
the document that they are written into, whatever the order of the writes. -/
theorem lookup_of_unrelated {entries order : List (String × Value)}
    (hunrelated : entries.Pairwise fun e e' => Unrelated e.1 e'.1) (horder : order.Perm entries) :
    ∀ e ∈ entries, Value.lookup (.object (Fields.insertPaths [] order)) e.1 = some e.2 := by
  have : Std.Symm fun e e' : String × Value => Unrelated e.1 e'.1 := ⟨fun _ _ => Unrelated.symm⟩
  have hpairs : order.Pairwise fun e e' => Unrelated e.1 e'.1 :=
    hunrelated.perm horder.symm Unrelated.symm
  have hnodup : (order.map (·.1)).Nodup := pairwise_map.mpr (hpairs.imp And.left)
  intro e he
  rw [Fields.lookup_insertPaths]
  refine Fields.walk_insertPaths_of_apart hnodup (horder.mem_iff.mpr he) ?_ []
  intro e' he' hne
  have hother : e ≠ e' := fun heq => hne (congrArg Prod.fst heq.symm)
  exact (hpairs.forall (horder.mem_iff.mpr he) he' hother).apart

/-- Four values, two of them below one name and two beside an empty segment. -/
def unrelatedSample : List (String × Value) :=
  [("a.b", .null), ("a.", .bool true), (".a", .string "x"), ("c", .object [])]

theorem lookup_of_unrelated_reversed :
    Value.lookup (.object (Fields.insertPaths [] unrelatedSample.reverse)) "a." = some (.bool true) :=
  lookup_of_unrelated (by decide) (reverse_perm unrelatedSample) ("a.", .bool true)
    (by simp [unrelatedSample])

end DocSql
