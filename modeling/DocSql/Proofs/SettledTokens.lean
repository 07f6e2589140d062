import DocSql.Proofs.CaseUnfolding

/-! # The tokens of a text

What the grouping of lexemes can leave on a level.  A number below zero stands only where an operand
may come, or behind the column of a table that is written as a keyword, and a star is an operator
exactly behind an operand (`Fits`); a parenthesis and a call hold levels of the same kind (`Settled`).
The lexemes of a text lead to such tokens (`LexState.fit_of_lex`, `settled_of_group`).
-/
namespace DocSql
open Compiled List

variable {lexemes : List Lexeme} {previous : Option LexemeKind}

/-! ### Lexemes -/

/-- An unquoted word that is a name. -/
structure Scan.IsName (text : String) : Prop where
  starts : ∃ c cs, text.toList = c :: cs ∧ (Text.isLetter c = true ∨ c = '_') ∧
    ∀ d ∈ cs, Scan.isWordChar d = true
  no_keyword : Scan.ofWord text = .name text

/-- What a lexeme can be behind another one.  Only where `keyed` allows it a keyword stands behind a
dot, as the name of a column. -/
def LexemeKind.Fits (keyed : Bool) (previous : Option LexemeKind) : LexemeKind → Prop
  | .name text => Scan.IsName text
  | .operator op => op ∈ operatorSigns
  | .number text => text.toList.head? = some '-' → Scan.opensOperand previous = true
  | .keyword _ => keyed = true ∨ previous ≠ some .dot
  | _ => True

/-- Each lexeme fits behind the one before it; the first one stands behind `previous`. -/
def Lexeme.Fit (keyed : Bool) : Option LexemeKind → List Lexeme → Prop
  | _, [] => True
  | previous, l :: rest => l.kind.Fits keyed previous ∧ Fit keyed (some l.kind) rest

namespace Scan

theorem ofWord_fits {c : Char} {cs : List Char} (hc : Text.isLetter c = true ∨ c = '_')
    (hcs : ∀ d ∈ cs, isWordChar d = true) :
    (ofWord (String.ofList (c :: cs))).Fits true previous := by
  have hname : ofWord (String.ofList (c :: cs)) = .name (String.ofList (c :: cs)) →
      IsName (String.ofList (c :: cs)) := fun h => ⟨⟨c, cs, String.toList_ofList, hc, hcs⟩, h⟩
  generalize String.ofList (c :: cs) = word at hname ⊢
  cases hword : ofWord word with
  | name text =>
    have htext : text = word := by
      unfold ofWord at hword
      grind
    rw [hword, htext] at hname
    rw [htext]
    exact hname rfl
  | keyword k => exact .inl rfl
  | null | bool => trivial
  | _ =>
    unfold ofWord at hword
    grind

theorem simple_fits (previous : Option LexemeKind) (holes : Nat) (c : Char) (cs : List Char) :
    Gives (fun r => r.kind.Fits true previous) (simple previous holes c cs) := by
  intro r hr
  obtain ⟨piece, rest, -, -, hform⟩ := simple_found _ _ _ _ r hr
  obtain ⟨kind, more, next⟩ := r
  cases hform with
  | mark mem =>
    simp only [marks, mem_cons, Prod.mk.injEq, not_mem_nil, or_false] at mem
    rcases mem with ⟨-, rfl⟩ | ⟨-, rfl⟩ | ⟨-, rfl⟩ | ⟨-, rfl⟩ | ⟨-, rfl⟩ <;> trivial
  | percent => exact (by decide : "%" ∈ operatorSigns)
  | operator mem => exact mem
  | negative opens => exact fun _ => opens
  | number starts =>
    -- a number without a sign starts with its first character
    intro hsign
    rw [String.toList_ofList] at hsign
    obtain rfl := Option.some.inj hsign
    simp at starts
  | word starts chars => exact ofWord_fits starts chars
  | _ => trivial

theorem scan_fits (previous : Option LexemeKind) (holes : Nat) (c : Char) (cs : List Char) :
    Gives (fun r => r.kind.Fits true previous) (scan previous holes c cs) := by
  unfold scan
  split
  · exact .ok (.inl rfl)
  · exact simple_fits previous holes c cs

end Scan

theorem LexState.fit_of_lex {s : LexState} {holes : Nat} (h : s.lex = .ok (lexemes, holes)) :
    Lexeme.Fit true s.previous lexemes := by
  induction hn : s.rest.length using Nat.strongRecOn generalizing s lexemes with
  | ind n ih =>
    subst hn
    rw [s.lex_eq] at h
    split at h
    · cases h
      trivial
    · cases h
    · rename_i r hscan
      obtain ⟨⟨rest, holes'⟩, hrest, h⟩ := bind_eq_ok.mp h
      cases h
      obtain ⟨c, cs, -, hr⟩ := scan?_eq_some hscan
      exact ⟨Scan.scan_fits _ _ _ _ r hr, ih _ (s.length_rest_after hscan r) hrest rfl⟩

theorem Numeral.head_of_read? {text : List Char} {numeral : Numeral} (h : read? text = some numeral)
    (hnegative : numeral.negative = true) : text.head? = some '-' := by
  unfold read? at h
  split at h
  rename_i negative cs hcs
  split at hcs
  · rfl
  · obtain ⟨rfl, rfl⟩ := Prod.mk.inj hcs
    simp only at h
    split at h
    all_goals
      split at h
      · cases h
      · split at h
        · cases h
          cases hnegative
        · split at h
          · obtain ⟨exponent, -, rfl⟩ := Option.map_eq_some_iff.mp h
            cases hnegative
          · cases h

/-- A whole number fits 64 bits, and is negative only behind a minus sign. -/
theorem Literal.of_ofNumber? {text : String} {n : Int} (h : ofNumber? text = some (.int n)) :
    (-signedBound ≤ n ∧ n < signedBound) ∧ (n < 0 → text.toList.head? = some '-') := by
  obtain ⟨numeral, hread, h⟩ := Option.map_eq_some_iff.mp h
  split at h
  · rename_i m hm
    split at h
    · rename_i hbound
      cases h
      refine ⟨by simpa using hbound, fun hneg => ?_⟩
      have hnegative : numeral.negative = true := by
        unfold Numeral.toInt? at hm
        grind
      exact Numeral.head_of_read? hread hnegative
    · cases h
  · cases h

namespace Token

variable {tokens : List Token}

/-! ### Signs and stars -/

/-- Whether the token is a number below zero. -/
def isNegative : Token → Bool
  | .literal (.int n) => n < 0
  | _ => false

/-- Whether the token is a column with its table. -/
def isQualified : Token → Bool
  | .name (some _) _ => true
  | _ => false

/-- Whether an operand may come behind the token, or at the start of a level. -/
def opensAfter : Option Token → Bool
  | none | some (.keyword _) => true
  | some (.operator op) => op ≠ "*"
  | some (.punctuation c) => c = ','
  | some _ => false

/-- A number below zero stands where an operand may come.  Where `keyed` allows it, it also stands
behind the column of a table: if that is written as a keyword, the minus sign is not an operator. -/
def SignFits (keyed : Bool) (previous : Option Token) (t : Token) : Prop :=
  t.isNegative = true → opensAfter previous = true ∨ (keyed = true ∧ previous.any isQualified = true)

/-- A star is an operator exactly behind an operand. -/
def StarFits (previous : Option Token) : Token → Prop
  | .operator op => op = "*" → previous.any isOperand = true
  | .wildcard => previous.any isOperand = false
  | _ => True

/-- The token may stand behind `previous`. -/
def Fits (keyed : Bool) (previous : Option Token) (t : Token) : Prop :=
  SignFits keyed previous t ∧ StarFits previous t

/-- The arguments of a call, with commas between them. -/
def flatArgs : List (List Token) → List Token
  | [] => []
  | [arg] => flatAll arg
  | arg :: rest => flatAll arg ++ .punctuation ',' :: flatArgs rest

/-- A token of a level that is written out: what it holds finishes again from what it is written out
as, and all of that stands where it may. -/
inductive Settled (keyed : Bool) : Token → Prop
  | keyword (k : Keyword) : Settled keyed (.keyword k)
  | name (qualifier : Option String) (column : String) : Settled keyed (.name qualifier column)
  | literal {l : Literal} (fits : ∀ n, l = .int n → -signedBound ≤ n ∧ n < signedBound) :
    Settled keyed (.literal l)
  | placeholder (index : Nat) : Settled keyed (.placeholder index)
  | wildcard : Settled keyed .wildcard
  | punctuation {c : Char} (mark : c = ',' ∨ c = ';') : Settled keyed (.punctuation c)
  | operator {op : String} (sign : op ∈ operatorSigns ∨ op = "*") : Settled keyed (.operator op)
  | paren {inner : List Token} (again : finish (flatAll inner) = .ok inner)
    (formed : ∀ t ∈ inner, Formed t) (fits : Chain (Fits keyed) none (flatAll inner))
    (settled : ∀ t ∈ flatAll inner, Settled keyed t) :
    Settled keyed (.paren inner)
  | call {fn : String} {args : List (List Token)} (name : Scan.IsName fn)
    (again : (splitCommas (flatArgs args)).mapM finish = .ok args)
    (formed : ∀ arg ∈ args, ∀ t ∈ arg, Formed t)
    (fits : ∀ arg ∈ args, Chain (Fits keyed) none (flatAll arg))
    (settled : ∀ arg ∈ args, ∀ t ∈ flatAll arg, Settled keyed t) : Settled keyed (.call fn args)

section

variable {keyed : Bool} {t : Token}
variable {R : Option Token → Token → Prop} {previous : Option Token} {xs : List Token}
  {args : List (List Token)} {state : Assembly} {l : Lexeme}

theorem Settled.flat_eq (h : Settled keyed t) : flat t = [t] := by
  cases h <;> rfl

theorem adjacency_fits : Adjacency (Fits keyed) where
  keyword _ _ := ⟨fun h => absurd h Bool.false_ne_true, trivial⟩
  name _ _ := ⟨fun h => absurd h Bool.false_ne_true, trivial⟩
  behind_keyword := by
    intro k t
    cases t <;> simp [Fits, SignFits, StarFits, opensAfter, isQualified, isOperand]
  respelled {previous previous' t t'} before same stands := by
    have hprevious : opensAfter previous = opensAfter previous' ∧
        previous.any isQualified = previous'.any isQualified ∧
        previous.any isOperand = previous'.any isOperand := by
      cases previous <;> cases previous' <;> first | exact ⟨rfl, rfl, rfl⟩ | cases before | skip
      rcases eq_or_of_canon (Option.some.inj before) with rfl | ⟨op, op', hop, hop', rfl, rfl⟩
      · exact ⟨rfl, rfl, rfl⟩
      · rcases hop with rfl | rfl <;> rcases hop' with rfl | rfl <;> exact ⟨rfl, rfl, rfl⟩
    obtain ⟨hopens, hqualified, hoperand⟩ := hprevious
    rcases eq_or_of_canon same with rfl | ⟨op, op', -, hop', rfl, rfl⟩
    · cases t <;> simpa [Fits, SignFits, StarFits, ← hopens, ← hqualified, ← hoperand] using stands
    · refine ⟨fun h => absurd h Bool.false_ne_true, ?_⟩
      rintro rfl
      exact absurd hop' (by decide)

theorem adjacency_settled : Adjacency fun _ t => Settled keyed t :=
  adjacency_forall .keyword (.name none) fun op hop => .operator (.inl (by
    rcases hop with rfl | rfl <;> decide))

/-- What stands on a level that is written out. -/
def Stands (keyed : Bool) (previous : Option Token) (t : Token) : Prop :=
  Fits keyed previous t ∧ Settled keyed t

theorem chain_and {S : Option Token → Token → Prop} :
    Chain (fun p t => R p t ∧ S p t) previous xs ↔ Chain R previous xs ∧ Chain S previous xs := by
  induction xs generalizing previous with
  | nil => simp [Chain]
  | cons t rest ih =>
    simp only [Chain, ih]
    grind

theorem chain_stands : Chain (Stands keyed) previous xs ↔
      Chain (Fits keyed) previous xs ∧ ∀ t ∈ xs, Settled keyed t := by
  rw [show Stands keyed = fun p t => Fits keyed p t ∧ Settled keyed t from rfl, chain_and, chain_forall]

/-- A level that finishes from tokens that stand where they may is settled. -/
theorem settled_of_finish {inner finished : List Token} (h : Chain (Stands keyed) none inner)
    (hfinish : finish inner = .ok finished) :
    finish (flatAll finished) = .ok finished ∧ (∀ t ∈ finished, Formed t) ∧
      Chain (Stands keyed) none (flatAll finished) := by
  obtain ⟨hfits, hsettled⟩ := chain_stands.mp h
  have hfinished := finished_of_finish (fun t ht => (hsettled t ht).flat_eq) hfinish
  refine ⟨hfinished.again, hfinished.formed, chain_stands.mpr ⟨hfinished.chain _ adjacency_fits hfits, ?_⟩⟩
  exact chain_forall.mp (hfinished.chain _ adjacency_settled (chain_forall.mpr hsettled))

/-! ### The arguments of a call -/

theorem isPunctuation_iff {c : Char} : t.isPunctuation c = true ↔ t = .punctuation c := by
  cases t <;> simp [isPunctuation]

/-- The pieces between commas stand as at the start of a level, and hold no comma. -/
theorem chain_pieces (hcomma : ∀ t, R (some (.punctuation ',')) t → R none t)
    (h : Chain R previous tokens) :
    ∃ piece more, splitCommas.pieces tokens = piece :: more ∧ Chain R previous piece ∧
      (∀ p ∈ more, Chain R none p) ∧ ∀ p ∈ piece :: more, ∀ t ∈ p, t.isPunctuation ',' = false := by
  induction tokens generalizing previous with
  | nil => exact ⟨[], [], rfl, trivial, forall_mem_nil _, by simp⟩
  | cons t rest ih =>
    obtain ⟨ht, hrest⟩ := h
    obtain ⟨piece, more, hpieces, hpiece, hmore, hfree⟩ := ih hrest
    rw [splitCommas.pieces, hpieces]
    split
    · rename_i ht
      obtain rfl := isPunctuation_iff.mp ht
      have hpiece : Chain R none piece := by
        cases piece with
        | nil => trivial
        | cons u piece => exact ⟨hcomma u hpiece.1, hpiece.2⟩
      exact ⟨[], piece :: more, rfl, trivial, forall_mem_cons.mpr ⟨hpiece, hmore⟩,
        forall_mem_cons.mpr ⟨forall_mem_nil _, hfree⟩⟩
    · rename_i ht'
      obtain ⟨hfree, hmoreFree⟩ := forall_mem_cons.mp hfree
      refine ⟨t :: piece, more, rfl, ⟨ht, hpiece⟩, hmore, forall_mem_cons.mpr ⟨?_, hmoreFree⟩⟩
      exact forall_mem_cons.mpr ⟨Bool.eq_false_iff.mpr ht', hfree⟩

theorem pieces_of_free (h : ∀ t ∈ xs, t.isPunctuation ',' = false) :
    splitCommas.pieces xs = [xs] := by
  induction xs with
  | nil => rfl
  | cons t rest ih =>
    obtain ⟨ht, hrest⟩ := forall_mem_cons.mp h
    rw [splitCommas.pieces, if_neg (by simp [ht]), ih hrest]

theorem pieces_append_comma (h : ∀ t ∈ xs, t.isPunctuation ',' = false) (ys : List Token) :
    splitCommas.pieces (xs ++ .punctuation ',' :: ys) = xs :: splitCommas.pieces ys := by
  induction xs with
  | nil => rw [nil_append, splitCommas.pieces, if_pos (by rfl)]
  | cons t rest ih =>
    obtain ⟨ht, hrest⟩ := forall_mem_cons.mp h
    rw [cons_append, splitCommas.pieces, if_neg (by simp [ht]), ih hrest]

/-- Arguments without commas of their own are the pieces of what they are written out as. -/
theorem splitCommas_flatArgs (h : ∀ arg ∈ args, ∀ t ∈ flatAll arg, t.isPunctuation ',' = false)
    (hne : args ≠ [[]]) : splitCommas (flatArgs args) = args.map flatAll := by
  have hpieces : ∀ {args : List (List Token)},
      (∀ arg ∈ args, ∀ t ∈ flatAll arg, t.isPunctuation ',' = false) → args ≠ [] →
      splitCommas.pieces (flatArgs args) = args.map flatAll := by
    intro args h hne
    fun_induction flatArgs args with
    | case1 => exact absurd rfl hne
    | case2 arg => exact pieces_of_free (h arg mem_cons_self)
    | case3 arg rest hrest ih =>
      obtain ⟨harg, hmore⟩ := forall_mem_cons.mp h
      rw [pieces_append_comma harg, ih hmore hrest]
      rfl
  cases args with
  | nil => rfl
  | cons arg rest =>
    have hflat : flatArgs (arg :: rest) ≠ [] := by
      cases rest with
      | nil => exact fun hnil => hne (by rw [flatAll_eq_nil.mp hnil])
      | cons arg' rest => simp [flatArgs]
    rw [splitCommas, if_neg (by simp [hflat]), hpieces h (cons_ne_nil _ _)]

theorem splitCommas_ne (tokens : List Token) : splitCommas tokens ≠ [[]] := by
  unfold splitCommas
  split
  · exact nofun
  · rename_i hne
    cases tokens with
    | nil => exact absurd rfl hne
    | cons t rest =>
      rw [splitCommas.pieces]
      split
      · cases rest with
        | nil => simp [splitCommas.pieces]
        | cons u rest =>
          rw [splitCommas.pieces]
          grind
      · split <;> simp

/-- What stands between commas stands as at the start of a level. -/
theorem stands_splitCommas {piece : List Token} (h : Chain (Stands keyed) none tokens)
    (hpiece : piece ∈ splitCommas tokens) :
    Chain (Stands keyed) none piece ∧ ∀ t ∈ piece, t.isPunctuation ',' = false := by
  have hstart (t : Token) (ht : Stands keyed (some (.punctuation ',')) t) : Stands keyed none t := by
    cases t <;> simpa [Stands, Fits, SignFits, StarFits, opensAfter, isQualified, isOperand] using ht
  obtain ⟨first, more, hpieces, hfirst, hmore, hfree⟩ := chain_pieces hstart h
  unfold splitCommas at hpiece
  split at hpiece
  · cases hpiece
  · rw [hpieces] at hpiece
    exact ⟨forall_mem_cons.mpr ⟨hfirst, hmore⟩ piece hpiece, hfree piece hpiece⟩

theorem mapM_flatAll (h : ∀ arg ∈ args, finish (flatAll arg) = .ok arg) :
    (args.map flatAll).mapM finish = .ok args := by
  induction args with
  | nil => rfl
  | cons arg rest ih =>
    obtain ⟨harg, hrest⟩ := forall_mem_cons.mp h
    rw [map_cons, mapM_cons, harg, ih hrest]
    rfl

/-- The token of a closed parenthesis is settled. -/
theorem settled_closeFrame {frame : Frame} {inner : List Token}
    (hname : ∀ fn, frame.call = some fn → Scan.IsName fn) (h : Chain (Stands keyed) none inner)
    (hclose : closeFrame frame inner = .ok t) (previous : Option Token) : Stands keyed previous t := by
  unfold closeFrame at hclose
  split at hclose
  · obtain ⟨finished, hfinish, rfl⟩ := bind₁_eq_ok.mp hclose
    obtain ⟨hagain, hformed, hstands⟩ := settled_of_finish h hfinish
    obtain ⟨hfits, hsettled⟩ := chain_stands.mp hstands
    exact ⟨⟨nofun, trivial⟩, .paren hagain hformed hfits hsettled⟩
  · rename_i fn hcall
    obtain ⟨args, hargs, rfl⟩ := bind₁_eq_ok.mp hclose
    have hflat {piece arg : List Token} (hpiece : piece ∈ splitCommas inner)
        (harg : finish piece = .ok arg) : Finished piece arg := by
      have hsettled := (chain_stands.mp (stands_splitCommas h hpiece).1).2
      exact finished_of_finish (fun t ht => (hsettled t ht).flat_eq) harg
    have hne : args ≠ [[]] := by
      rintro rfl
      cases hpieces : splitCommas inner with
      | nil =>
        rw [hpieces] at hargs
        cases hargs
      | cons piece more =>
        rw [hpieces] at hargs
        cases forall₂_of_mapM hargs with
        | cons hpiece hmore =>
          cases hmore
          have hmem : piece ∈ splitCommas inner := hpieces ▸ mem_cons_self
          have hnil : piece = [] := by
            by_contra hne
            exact (hflat hmem hpiece).ne_nil hne rfl
          exact splitCommas_ne inner (hnil ▸ hpieces)
    have hargs {arg : List Token} (harg : arg ∈ args) : finish (flatAll arg) = .ok arg ∧
        (∀ t ∈ arg, Formed t) ∧ Chain (Stands keyed) none (flatAll arg) ∧
        ∀ t ∈ flatAll arg, t.isPunctuation ',' = false := by
      obtain ⟨piece, hpiece, hfinish⟩ := exists_of_mapM hargs arg harg
      obtain ⟨hstands, hfree⟩ := stands_splitCommas h hpiece
      obtain ⟨hagain, hformed, hstands⟩ := settled_of_finish hstands hfinish
      refine ⟨hagain, hformed, hstands,
        chain_forall.mp ((hflat hpiece hfinish).chain _ ?_ (chain_forall.mpr hfree))⟩
      exact adjacency_forall (fun _ => rfl) (fun _ => rfl) fun _ _ => rfl
    refine ⟨⟨nofun, trivial⟩, .call (hname fn hcall) ?_ (fun arg harg => (hargs harg).2.1)
      (fun arg harg => (chain_stands.mp (hargs harg).2.2.1).1)
      fun arg harg => (chain_stands.mp (hargs harg).2.2.1).2⟩
    rw [splitCommas_flatArgs (fun arg harg => (hargs harg).2.2.2) hne]
    exact mapM_flatAll fun arg harg => (hargs harg).1

/-! ### Assembling -/

/-- What is assembled so far stands where it may. -/
structure AssemblyStands (keyed : Bool) (state : Assembly) : Prop where
  level : Chain (Stands keyed) none state.before.reverse
  frames : ∀ frame ∈ state.stack, Chain (Stands keyed) none frame.before.reverse
  calls : ∀ frame ∈ state.stack, ∀ fn, frame.call = some fn → Scan.IsName fn

/-- Also, where the last lexeme opens an operand, the last token does so, or is the column of a
table. -/
structure AssemblyFits (keyed : Bool) (previous : Option LexemeKind) (state : Assembly) : Prop extends
    AssemblyStands keyed state where
  opens : Scan.opensOperand previous = true → opensAfter state.before.head? = true ∨
    (keyed = true ∧ state.before.head?.any isQualified = true)

variable {previous : Option LexemeKind}

theorem AssemblyStands.push (h : AssemblyStands keyed state)
    (ht : Stands keyed state.before.head? t)
    (hopens : Scan.opensOperand previous = true → opensAfter (some t) = true ∨
      (keyed = true ∧ t.isQualified = true)) :
    AssemblyFits keyed previous ⟨state.stack, t :: state.before⟩ where
  level := by
    rw [reverse_cons, chain_append, getLast?_reverse, Option.or_none]
    exact ⟨h.level, ht, trivial⟩
  frames := h.frames
  calls := h.calls
  opens := hopens

theorem AssemblyStands.enter (h : AssemblyStands keyed state)
    {call : Option String} (hcall : ∀ fn, call = some fn → Scan.IsName fn) :
    AssemblyFits keyed previous ⟨⟨call, state.before⟩ :: state.stack, []⟩ where
  level := trivial
  frames := forall_mem_cons.mpr ⟨h.level, h.frames⟩
  calls := forall_mem_cons.mpr ⟨hcall, h.calls⟩
  opens _ := .inl rfl

theorem assemblyFits_readName {rest : List Lexeme} {first : String}
    {taken : Nat} (hstate : AssemblyFits keyed previous state)
    (hrest : Lexeme.Fit keyed (some l.kind) rest) (hl : Scan.opensOperand (some l.kind) = false)
    (h : readName first rest = .ok (t, taken)) :
    ∃ previous', AssemblyFits keyed previous' ⟨state.stack, t :: state.before⟩ ∧
      Lexeme.Fit keyed previous' (rest.drop taken) := by
  unfold readName at h
  split at h
  · rename_i spaced start member rest
    split at h
    · rename_i column hcolumn
      cases h
      obtain ⟨-, hmember, hrest⟩ := hrest
      refine ⟨some member.kind, hstate.push ⟨⟨nofun, trivial⟩, .name _ _⟩ fun hopens => .inr ⟨?_, rfl⟩,
        hrest⟩
      -- of the lexemes that can be a column only a keyword opens an operand
      cases hkind : member.kind with
      | keyword k =>
        rw [hkind] at hmember
        exact hmember.resolve_right fun hne => hne rfl
      | operator | comma | lparen =>
        rw [hkind] at hcolumn
        cases hcolumn
      | _ =>
        rw [hkind] at hopens
        cases hopens
    · cases h
  · cases h
  · cases h
    refine ⟨some l.kind, hstate.push ⟨⟨nofun, trivial⟩, .name _ _⟩ fun hopens => ?_, hrest⟩
    rw [hl] at hopens
    cases hopens

theorem stands_ofLexeme (hstate : AssemblyFits keyed previous state)
    (hl : l.kind.Fits keyed previous) (h : ofLexeme state.before l = .ok t) :
    Stands keyed state.before.head? t ∧
      (Scan.opensOperand (some l.kind) = true → opensAfter (some t) = true) := by
  obtain ⟨kind, spaced, start⟩ := l
  unfold ofLexeme at h
  cases kind with
  | number text =>
    simp only at h
    split at h
    · rename_i literal hliteral
      cases h
      refine ⟨⟨⟨fun hneg => hstate.opens (hl ?_), trivial⟩, .literal fun n hn => ?_⟩, nofun⟩
      · cases literal <;> first | cases hneg | skip
        exact (Literal.of_ofNumber? hliteral).2 (of_decide_eq_true hneg)
      · subst hn
        exact (Literal.of_ofNumber? hliteral).1
    · cases h
  | star =>
    simp only at h
    split at h
    · rename_i last before hbefore
      rw [hbefore]
      split at h
      · rename_i hlast
        cases h
        exact ⟨⟨⟨nofun, fun _ => hlast⟩, .operator (.inr rfl)⟩, nofun⟩
      · rename_i hlast
        cases h
        exact ⟨⟨⟨nofun, Bool.eq_false_iff.mpr hlast⟩, .wildcard⟩, nofun⟩
    · rename_i hbefore
      cases h
      rw [hbefore]
      exact ⟨⟨⟨nofun, rfl⟩, .wildcard⟩, nofun⟩
  | operator op =>
    cases h
    have hne : op ≠ "*" := by
      rintro rfl
      exact absurd (show "*" ∈ operatorSigns from hl) (by decide)
    exact ⟨⟨⟨nofun, fun h => absurd h hne⟩, .operator (.inl hl)⟩, fun _ => by simp [opensAfter, hne]⟩
  | dot | lparen | rparen =>
    cases h
  | keyword k =>
    cases h
    exact ⟨⟨⟨nofun, trivial⟩, .keyword k⟩, fun _ => rfl⟩
  | comma =>
    cases h
    exact ⟨⟨⟨nofun, trivial⟩, .punctuation (.inl rfl)⟩, fun _ => rfl⟩
  | semicolon =>
    cases h
    exact ⟨⟨⟨nofun, trivial⟩, .punctuation (.inr rfl)⟩, nofun⟩
  | placeholder index =>
    cases h
    exact ⟨⟨⟨nofun, trivial⟩, .placeholder index⟩, nofun⟩
  | name text | quoted text =>
    cases h
    exact ⟨⟨⟨nofun, trivial⟩, .name none text⟩, nofun⟩
  | string | null | bool =>
    cases h
    exact ⟨⟨⟨nofun, trivial⟩, .literal nofun⟩, nofun⟩

/-- A step of the assembly keeps what is assembled standing where it may. -/
theorem assemblyFits_assembleOne {state' : Assembly}
    {rest : List Lexeme} {taken : Nat} (hstate : AssemblyFits keyed previous state)
    (hfit : Lexeme.Fit keyed previous (l :: rest))
    (h : assembleOne state l rest = .ok (state', taken)) :
    ∃ previous', AssemblyFits keyed previous' state' ∧ Lexeme.Fit keyed previous' (rest.drop taken) := by
  obtain ⟨hl, hrest⟩ := hfit
  unfold assembleOne at h
  split at h
  · cases h
    exact ⟨some l.kind, hstate.enter nofun, hrest⟩
  · rename_i hkind
    split at h
    · cases h
    · rename_i frame stack hstack
      obtain ⟨t, ht, h⟩ := bind_eq_ok.mp h
      cases h
      have hframes := hstate.frames
      have hcalls := hstate.calls
      rw [hstack] at hframes hcalls
      obtain ⟨hframe, hframes⟩ := forall_mem_cons.mp hframes
      obtain ⟨hcall, hcalls⟩ := forall_mem_cons.mp hcalls
      have houter : AssemblyStands keyed ⟨stack, frame.before⟩ := ⟨hframe, hframes, hcalls⟩
      refine ⟨some l.kind, houter.push (settled_closeFrame hcall hstate.level ht _) ?_, hrest⟩
      rw [hkind]
      exact nofun
  · rename_i first hkind
    split at h
    · cases h
      rw [hkind] at hl
      refine ⟨some .lparen, hstate.enter ?_, hrest.2⟩
      rintro _ ⟨⟩
      exact hl
    · obtain ⟨⟨t, taken'⟩, ht, h⟩ := bind_eq_ok.mp h
      cases h
      exact assemblyFits_readName hstate hrest (by rw [hkind]; rfl) ht
  · rename_i first hkind
    obtain ⟨⟨t, taken'⟩, ht, h⟩ := bind_eq_ok.mp h
    cases h
    exact assemblyFits_readName hstate hrest (by rw [hkind]; rfl) ht
  · obtain ⟨t, ht, h⟩ := bind_eq_ok.mp h
    cases h
    obtain ⟨hstands, hopens⟩ := stands_ofLexeme hstate hl ht
    exact ⟨some l.kind, hstate.push hstands fun h => .inl (hopens h), hrest⟩

theorem chain_assemble (hstate : AssemblyFits keyed previous state)
    (hfit : Lexeme.Fit keyed previous lexemes) (h : assemble state lexemes = .ok tokens) :
    Chain (Stands keyed) none tokens := by
  fun_induction assemble state lexemes generalizing previous with
  | case1 state hclosed =>
    cases h
    exact hstate.level
  | case2 => cases h
  | case3 state l rest state' taken hone ih =>
    obtain ⟨previous', hstate', hfit'⟩ := assemblyFits_assembleOne hstate hfit hone
    exact ih hstate' hfit' h
  | case4 => cases h

end

/-- The tokens of lexemes that fit finish again from what they are written out as, and all of that
stands where it may. -/
theorem settled_of_group {keyed : Bool} (hfit : Lexeme.Fit keyed none lexemes)
    (h : group lexemes = .ok tokens) :
    finish (flatAll tokens) = .ok tokens ∧ (∀ t ∈ tokens, Formed t) ∧
      Chain (Stands keyed) none (flatAll tokens) := by
  obtain ⟨assembled, hassemble, hfinish⟩ := bind_eq_ok.mp h
  refine settled_of_finish (chain_assemble ?_ hfit hassemble) hfinish
  exact ⟨⟨trivial, forall_mem_nil _, forall_mem_nil _⟩, fun _ => .inl rfl⟩

end Token

end DocSql
