import Mathlib
import DocSql.Proofs.WrittenLexemes

/-! # Reading written tokens

Tokens that are written as text are read as the same tokens again, unless a number below zero stands
directly behind the column of a table (`reads_again_iff`).  Such a number comes from a text like
`t.key -5`, where the column is spelled as a keyword and the minus sign counts as a part of the number;
the written column is quoted, and behind it the sign is an operator.
-/
namespace DocSql
open List

/-! ### Numbers -/

/-- Digits with or without a minus sign are a numeral. -/
theorem Numeral.read?_digits (negative : Bool) {digits : List Char} (hne : digits ≠ [])
    (hdigits : ∀ d ∈ digits, d.isDigit = true) :
    read? (if negative then '-' :: digits else digits) = some ⟨negative, digits, [], false, 0⟩ := by
  have hwhole : (digits ++ []).takeWhile Char.isDigit = digits :=
    Scan.takeWhile_append_eq_iff.mpr ⟨hdigits, rfl⟩
  have hrest : (digits ++ []).dropWhile Char.isDigit = [] := dropWhile_append_of_pos hdigits
  rw [append_nil] at hwhole hrest
  unfold read?
  cases negative with
  | true => simp [hwhole, hrest, hne]
  | false =>
    split
    rename_i sign cs hcs
    split at hcs
    · rename_i heq
      have : '-'.isDigit = true := hdigits '-' (by rw [show digits = _ from heq]; exact mem_cons_self)
      cases this
    · cases hcs
      simp [hwhole, hrest, hne]

/-- A whole number of 64 bits is read from its own text. -/
theorem Literal.ofNumber?_toString {n : Int} (h : -signedBound ≤ n ∧ n < signedBound) :
    ofNumber? (toString n) = some (.int n) := by
  obtain ⟨negative, m, htext, hvalue⟩ : ∃ (negative : Bool) (m : Nat),
      (toString n).toList = (if negative then '-' :: Nat.toDigits 10 m else Nat.toDigits 10 m) ∧
      n = if negative then -(m : Int) else m := by
    cases n with
    | ofNat m => exact ⟨false, m, Token.toList_text_nat m, rfl⟩
    | negSucc m => exact ⟨true, m + 1, Token.toList_text_negative m, rfl⟩
  have hread := Numeral.read?_digits negative (@Nat.toDigits_ne_nil m 10) isDigit_of_mem_toDigits
  have hbounds : (decide (-signedBound ≤ n) && decide (n < signedBound)) = true := by simpa using h
  rw [ofNumber?, htext, hread, Option.map_some]
  simp only [Numeral.toInt?, digitsValue_toDigits, Bool.false_eq_true, if_false, ← hvalue, hbounds,
    if_true]

namespace Token

section

variable {keyed opens : Bool} {tokens : List Token} {lexemes : List Lexeme} {t : Token}
variable {kind : LexemeKind}
variable {previous : Option LexemeKind} {rest : List Lexeme} {l : Lexeme} {before : List Token}

/-! ### Signs of written numbers -/

theorem isNegative_of_head {n : Int} (h : (toString n).toList.head? = some '-') :
    (Token.literal (.int n)).isNegative = true := by
  cases n with
  | negSucc m => exact decide_eq_true (Int.negSucc_lt_zero m)
  | ofNat m =>
    rw [show (toString (Int.ofNat m)).toList = _ from toList_text_nat m] at h
    have : '-'.isDigit = true := isDigit_of_mem_toDigits '-' (mem_of_mem_head? h)
    cases this

/-- A lexeme that spells a token alone may stand behind all but a dot. -/
theorem Settled.fits_lexeme (h : Settled keyed t) (hkind : lexeme? t = some kind)
    (hdot : previous ≠ some .dot) (hsign : t.isNegative = true → Scan.opensOperand previous = true)
    : kind.Fits false previous := by
  cases h with
  | keyword k =>
    cases hkind
    exact .inr hdot
  | name qualifier column =>
    cases qualifier with
    | none =>
      cases hkind
      trivial
    | some table => cases hkind
  | @literal l fits =>
    cases l with
    | int n =>
      cases hkind
      exact fun hhead => hsign (isNegative_of_head hhead)
    | null | bool | string =>
      cases hkind
      trivial
    | float => cases hkind
  | placeholder | wildcard =>
    cases hkind
    trivial
  | punctuation mark =>
    rcases mark with rfl | rfl <;> cases hkind <;> trivial
  | @operator op sign =>
    by_cases hstar : op = "*"
    · rw [lexeme?, if_pos hstar] at hkind
      cases hkind
      trivial
    · rw [lexeme?, if_neg hstar] at hkind
      cases hkind
      exact sign.resolve_right hstar
  | paren | call => cases hkind

theorem fit_append_rparen {xs ys : List Lexeme} {right : Lexeme} (hright : right.kind = .rparen)
    (hxs : Lexeme.Fit keyed previous xs) (hys : Lexeme.Fit keyed (some .rparen) ys) :
    Lexeme.Fit keyed previous (xs ++ right :: ys) := by
  induction xs generalizing previous with
  | nil =>
    refine ⟨?_, hright ▸ hys⟩
    rw [hright]
    trivial
  | cons l xs ih => exact ⟨hxs.1, ih hxs.2⟩

/-- Lexemes that spell tokens fit, and no keyword stands behind a dot among them. -/
theorem Spelled.fit (h : Spelled opens tokens lexemes) (hsettled : ∀ t ∈ tokens, Settled keyed t)
    (hopens : opens = Scan.opensOperand previous) (hdot : previous ≠ some .dot) :
    Lexeme.Fit false previous lexemes := by
  induction h generalizing previous with
  | nil => trivial
  | @single opens t tokens l lexemes kind sign more ih =>
    obtain ⟨ht, hmore⟩ := forall_mem_cons.mp hsettled
    have hne : some l.kind ≠ some .dot := by
      intro heq
      unfold lexeme? at kind
      grind
    exact ⟨ht.fits_lexeme kind hdot (hopens ▸ sign), ih hmore rfl hne⟩
  | @minus n tokens sign number lexemes sign_kind kind more ih =>
    obtain ⟨-, hmore⟩ := forall_mem_cons.mp hsettled
    refine ⟨?_, ?_, ih hmore (by rw [kind]; rfl) (by simp [kind])⟩
    · rw [sign_kind]
      exact (by decide : "-" ∈ operatorSigns)
    · rw [kind, sign_kind]
      exact fun _ => rfl
  | @qualified opens table column tokens first dot second lexemes first_kind dot_kind second_kind more ih =>
    obtain ⟨-, hmore⟩ := forall_mem_cons.mp hsettled
    refine ⟨?_, ?_, ?_, ih hmore (by rw [second_kind]; rfl) (by simp [second_kind])⟩
    · rw [first_kind]
      trivial
    · rw [dot_kind]
      trivial
    · rw [second_kind]
      trivial
  | @paren opens inner tokens left right held lexemes left_kind right_kind within more ihWithin ih =>
    obtain ⟨ht, hmore⟩ := forall_mem_cons.mp hsettled
    cases ht with
    | paren again formed fits settled =>
      refine ⟨by rw [left_kind]; trivial, fit_append_rparen right_kind ?_ (ih hmore rfl nofun)⟩
      rw [left_kind]
      exact ihWithin settled rfl nofun
  | @call opens fn args tokens name left right held lexemes name_kind left_kind close right_kind within
      more ihWithin ih =>
    obtain ⟨ht, hmore⟩ := forall_mem_cons.mp hsettled
    cases ht with
    | call isName again formed fits settled =>
      refine ⟨by rw [name_kind]; exact isName, by rw [left_kind]; trivial,
        fit_append_rparen right_kind ?_ (ih hmore rfl nofun)⟩
      rw [left_kind]
      exact ihWithin (forall_mem_flatArgs (.punctuation (.inl rfl)) settled) rfl nofun

/-! ### Assembling spelled tokens -/

theorem Spelled.head_ne_dot (h : Spelled opens tokens lexemes)
    (hrest : rest.head?.map Lexeme.kind ≠ some .dot) :
    (lexemes ++ rest).head?.map Lexeme.kind ≠ some .dot := by
  cases h with
  | nil => exact hrest
  | @single _ t _ l _ kind =>
    intro heq
    unfold lexeme? at kind
    grind
  | minus sign_kind => simp [sign_kind]
  | qualified first_kind => simp [first_kind]
  | paren left_kind => simp [left_kind]
  | call name_kind => simp [name_kind]

theorem readName_of_head {first : String} (h : rest.head?.map Lexeme.kind ≠ some .dot) :
    readName first rest = .ok (.name none first, 0) := by
  unfold readName
  split
  · exact absurd rfl h
  · exact absurd rfl h
  · rfl

theorem assemble_cons {state state' : Assembly} {taken : Nat}
    (h : assembleOne state l rest = .ok (state', taken)) :
    assemble state (l :: rest) = assemble state' (rest.drop taken) := by
  rw [assemble, h]

/-- Whether the lexeme is a token whatever follows. -/
def isWhole : LexemeKind → Bool
  | .lparen | .rparen | .name _ | .quoted _ => false
  | _ => true

theorem assembleOne_of_isWhole (hwhole : isWhole l.kind = true) {stack : List Frame}
    (h : ofLexeme before l = .ok t) (rest : List Lexeme) :
    assembleOne ⟨stack, before⟩ l rest = .ok (⟨stack, t :: before⟩, 0) := by
  unfold assembleOne
  split
  case h_5 =>
    rw [h]
    rfl
  all_goals
    rename_i hkind
    rw [hkind] at hwhole
    cases hwhole

theorem ofLexeme_star (ht : t = .operator "*" ∨ t = .wildcard) (hstar : StarFits before.head? t)
    (spaced : Bool) (start : Nat) : ofLexeme before ⟨.star, spaced, start⟩ = .ok t := by
  cases before with
  | nil =>
    rcases ht with rfl | rfl
    · cases hstar rfl
    · rfl
  | cons last before =>
    rcases ht with rfl | rfl
    · exact if_pos (hstar rfl)
    · exact if_neg (Bool.eq_false_iff.mp hstar)

/-- A lexeme that spells a token alone is assembled to it, where a star is what it has to be. -/
theorem Settled.assembleOne_eq (h : Settled keyed t) (hkind : lexeme? t = some l.kind)
    {stack : List Frame} (hstar : StarFits before.head? t)
    (hrest : rest.head?.map Lexeme.kind ≠ some .dot) :
    assembleOne ⟨stack, before⟩ l rest = .ok (⟨stack, t :: before⟩, 0) := by
  obtain ⟨kind, spaced, start⟩ := l
  cases h with
  | name qualifier column =>
    cases qualifier with
    | none =>
      cases hkind
      show (readName column rest >>= _) = _
      rw [readName_of_head hrest]
      rfl
    | some table => cases hkind
  | @literal l fits =>
    cases l with
    | int n =>
      cases hkind
      refine assembleOne_of_isWhole rfl ?_ rest
      unfold ofLexeme
      simp only [Literal.ofNumber?_toString (fits n rfl)]
    | null | bool | string =>
      cases hkind
      exact assembleOne_of_isWhole rfl rfl rest
    | float => cases hkind
  | keyword | placeholder =>
    cases hkind
    exact assembleOne_of_isWhole rfl rfl rest
  | wildcard =>
    cases hkind
    exact assembleOne_of_isWhole rfl (ofLexeme_star (.inr rfl) hstar spaced start) rest
  | punctuation mark =>
    rcases mark with rfl | rfl <;> cases hkind <;> exact assembleOne_of_isWhole rfl rfl rest
  | @operator op sign =>
    by_cases heq : op = "*"
    · subst heq
      cases hkind
      exact assembleOne_of_isWhole rfl (ofLexeme_star (.inl rfl) hstar spaced start) rest
    · rw [lexeme?, if_neg heq] at hkind
      cases hkind
      exact assembleOne_of_isWhole rfl rfl rest
  | paren | call => cases hkind

theorem Settled.opensOperand_lexeme (h : Settled keyed t) (hkind : lexeme? t = some kind) :
    Scan.opensOperand (some kind) = opensAfter (some t) := by
  cases h with
  | keyword | placeholder | wildcard =>
    cases hkind
    rfl
  | name qualifier column =>
    cases qualifier <;> cases hkind
    rfl
  | @literal l fits =>
    cases l <;> cases hkind
    all_goals rfl
  | punctuation mark =>
    rcases mark with rfl | rfl
    · cases hkind
      rfl
    · cases hkind
      rfl
  | @operator op sign =>
    by_cases heq : op = "*"
    · subst heq
      cases hkind
      rfl
    · rw [lexeme?, if_neg heq] at hkind
      cases hkind
      simp [Scan.opensOperand, opensAfter, heq]
  | paren | call => cases hkind

/-- The arguments of a call stand with commas between them as each one stands alone. -/
theorem chain_flatArgs {args : List (List Token)}
    (h : ∀ arg ∈ args, Chain (Fits keyed) none (flatAll arg)) :
    Chain (Fits keyed) none (flatArgs args) := by
  have hcomma {xs : List Token} (hxs : Chain (Fits keyed) none xs) :
      Chain (Fits keyed) (some (.punctuation ',')) xs := by
    cases xs with
    | nil => trivial
    | cons t rest =>
      obtain ⟨⟨hsign, hstar⟩, hrest⟩ := hxs
      refine ⟨⟨fun hneg => .inl rfl, ?_⟩, hrest⟩
      cases t <;> exact hstar
  fun_induction flatArgs args with
  | case1 => trivial
  | case2 arg => exact h arg mem_cons_self
  | case3 arg rest _ ih =>
    obtain ⟨harg, hrest⟩ := forall_mem_cons.mp h
    exact chain_append.mpr ⟨harg, ⟨fun h => absurd h Bool.false_ne_true, trivial⟩, hcomma (ih hrest)⟩

/-- Lexemes that spell tokens are assembled to them, where each sign belongs to its number. -/
theorem Spelled.assemble_append (h : Spelled opens tokens lexemes) (stack : List Frame)
    (before : List Token) (rest : List Lexeme) (hsettled : ∀ t ∈ tokens, Settled false t)
    (hfits : Chain (Fits false) before.head? tokens) (hopens : opens = opensAfter before.head?)
    (hrest : rest.head?.map Lexeme.kind ≠ some .dot) :
    assemble ⟨stack, before⟩ (lexemes ++ rest) = assemble ⟨stack, tokens.reverse ++ before⟩ rest := by
  induction h generalizing stack before rest with
  | nil => rfl
  | @single opens t tokens l lexemes kind sign more ih =>
    obtain ⟨ht, hmore⟩ := forall_mem_cons.mp hsettled
    rw [cons_append, assemble_cons (ht.assembleOne_eq kind hfits.1.2 (more.head_ne_dot hrest)),
      drop_zero, ih stack (t :: before) rest hmore hfits.2 (ht.opensOperand_lexeme kind) hrest]
    simp
  | @minus n tokens sign number lexemes sign_kind kind more ih =>
    -- the sign would not belong to the number
    rcases hfits.1.1 (decide_eq_true (Int.negSucc_lt_zero n)) with hafter | ⟨hkeyed, -⟩
    · rw [hafter] at hopens
      cases hopens
    · cases hkeyed
  | @qualified opens table column tokens first dot second lexemes first_kind dot_kind second_kind more ih =>
    obtain ⟨-, hmore⟩ := forall_mem_cons.mp hsettled
    obtain ⟨_, spaced, start⟩ := first
    obtain ⟨_, spaced', start'⟩ := dot
    obtain ⟨_, spaced'', start''⟩ := second
    subst first_kind dot_kind second_kind
    have hone : assembleOne ⟨stack, before⟩ ⟨.quoted table, spaced, start⟩
        (⟨.dot, spaced', start'⟩ :: ⟨.quoted column, spaced'', start''⟩ :: (lexemes ++ rest)) =
        .ok (⟨stack, .name (some table) column :: before⟩, 2) := rfl
    rw [cons_append, cons_append, cons_append, assemble_cons hone]
    simpa using ih stack (.name (some table) column :: before) rest hmore hfits.2 rfl hrest
  | @paren opens inner tokens left right held lexemes left_kind right_kind within more ihWithin ih =>
    obtain ⟨ht, hmore⟩ := forall_mem_cons.mp hsettled
    cases ht with
    | paren again formed fits settled =>
      obtain ⟨_, spaced, start⟩ := left
      obtain ⟨_, spaced', start'⟩ := right
      subst left_kind right_kind
      have hopen : assembleOne ⟨stack, before⟩ ⟨.lparen, spaced, start⟩
          (held ++ ⟨.rparen, spaced', start'⟩ :: (lexemes ++ rest)) =
          .ok (⟨⟨none, before⟩ :: stack, []⟩, 0) := rfl
      have hclose : assembleOne ⟨⟨none, before⟩ :: stack, (flatAll inner).reverse⟩
          ⟨.rparen, spaced', start'⟩ (lexemes ++ rest) = .ok (⟨stack, .paren inner :: before⟩, 0) := by
        simp [assembleOne, closeFrame, again]
      rw [cons_append, append_assoc, cons_append, assemble_cons hopen, drop_zero,
        ihWithin _ [] (⟨.rparen, spaced', start'⟩ :: _) settled fits rfl (by simp), append_nil,
        assemble_cons hclose, drop_zero,
        ih stack (.paren inner :: before) rest hmore hfits.2 rfl hrest]
      simp
  | @call opens fn args tokens name left right held lexemes name_kind left_kind close right_kind within
      more ihWithin ih =>
    obtain ⟨ht, hmore⟩ := forall_mem_cons.mp hsettled
    cases ht with
    | call isName again formed fits settled =>
      obtain ⟨_, spaced, start⟩ := name
      obtain ⟨_, spaced', start'⟩ := left
      obtain ⟨_, spaced'', start''⟩ := right
      subst name_kind left_kind right_kind close
      have hopen : assembleOne ⟨stack, before⟩ ⟨.name fn, spaced, start⟩ (⟨.lparen, false, start'⟩ ::
          (held ++ ⟨.rparen, spaced'', start''⟩ :: (lexemes ++ rest))) =
          .ok (⟨⟨some fn, before⟩ :: stack, []⟩, 1) := rfl
      have hclose : assembleOne ⟨⟨some fn, before⟩ :: stack, (flatArgs args).reverse⟩
          ⟨.rparen, spaced'', start''⟩ (lexemes ++ rest) = .ok (⟨stack, .call fn args :: before⟩, 0) := by
        simp [assembleOne, closeFrame, again]
      rw [cons_append, cons_append, append_assoc, cons_append, assemble_cons hopen,
        drop_succ_cons, drop_zero,
        ihWithin _ [] (⟨.rparen, spaced'', start''⟩ :: _)
          (forall_mem_flatArgs (.punctuation (.inl rfl)) settled) (chain_flatArgs fits) rfl (by simp),
        append_nil, assemble_cons hclose, drop_zero,
        ih stack (.call fn args :: before) rest hmore hfits.2 rfl hrest]
      simp

/-- Lexemes that spell a level are grouped to it. -/
theorem Spelled.group_eq (h : Spelled true (flatAll tokens) lexemes)
    (hagain : finish (flatAll tokens) = .ok tokens)
    (hstands : Chain (Stands false) none (flatAll tokens)) :
    group lexemes = .ok tokens := by
  obtain ⟨hfits, hsettled⟩ := chain_stands.mp hstands
  have hassemble : assemble ⟨[], []⟩ (lexemes ++ []) = assemble ⟨[], (flatAll tokens).reverse ++ []⟩ [] :=
    h.assemble_append [] [] [] hsettled hfits rfl nofun
  rw [append_nil, append_nil] at hassemble
  rw [group, hassemble, assemble]
  simpa using hagain

/-! ### Columns before numbers -/

/-- No column of a table stands directly before a number below zero, where the levels are written
out. -/
def SignsApart (tokens : List Token) : Prop :=
  ∀ level, Level tokens level → ∀ column number, column.isQualified = true → number.isNegative = true →
    ¬ [column, number] <:+: flatAll level

theorem SignsApart.part {part : List Token} (h : SignsApart tokens) (ht : t ∈ flatAll tokens)
    (hpart : part ∈ parts t) : SignsApart part :=
  fun level hlevel => h level ((level_of_mem_flatAll ht hpart).trans hlevel)

/-- Where no column stands before a number below zero, all stands as if no column were spelled as a
keyword. -/
theorem chain_fits_of_apart {previous : Option Token} {xs : List Token}
    (h : Chain (Fits keyed) previous xs) (hapart : ∀ column number, column.isQualified = true →
      number.isNegative = true → ¬ [column, number] <:+: previous.toList ++ xs) :
    Chain (Fits false) previous xs := by
  induction xs generalizing previous with
  | nil => trivial
  | cons t rest ih =>
    obtain ⟨⟨hsign, hstar⟩, hrest⟩ := h
    refine ⟨⟨fun hneg => (hsign hneg).imp_right fun hkeyed => ?_, hstar⟩,
      ih hrest fun column number hcolumn hnumber hwithin => hapart column number hcolumn hnumber ?_⟩
    · obtain ⟨column, rfl, hcolumn⟩ := (Option.any_eq_true _ _).mp hkeyed.2
      exact absurd (prefix_append [column, t] rest).isInfix (hapart column t hcolumn hneg)
    · exact hwithin.trans (suffix_append _ _).isInfix

theorem Settled.unkeyed (h : Settled keyed t) (hapart : ∀ part ∈ parts t, SignsApart part) :
    Settled false t := by
  induction h with
  | keyword k => exact .keyword k
  | name qualifier column => exact .name qualifier column
  | literal fits => exact .literal fits
  | placeholder i => exact .placeholder i
  | wildcard => exact .wildcard
  | punctuation mark => exact .punctuation mark
  | operator sign => exact .operator sign
  | @paren inner again formed fits settled ih =>
    have hinner : SignsApart inner := hapart inner mem_cons_self
    exact .paren again formed (chain_fits_of_apart fits (hinner inner .self))
      fun t ht => ih t ht fun part hpart => hinner.part ht hpart
  | @call fn args name again formed fits settled ih =>
    have hargs {arg : List Token} (harg : arg ∈ args) : SignsApart arg := hapart arg harg
    exact .call name again formed
      (fun arg harg => chain_fits_of_apart (fits arg harg) (hargs harg arg .self))
      fun arg harg t ht => ih arg harg t ht fun part hpart => (hargs harg).part ht hpart

theorem SignsApart.stands (h : SignsApart tokens) (hstands : Chain (Stands keyed) none (flatAll tokens)) :
    Chain (Stands false) none (flatAll tokens) := by
  obtain ⟨hfits, hsettled⟩ := chain_stands.mp hstands
  exact chain_stands.mpr ⟨chain_fits_of_apart hfits (h tokens .self),
    fun t ht => (hsettled t ht).unkeyed fun part hpart => h.part ht hpart⟩

theorem infix_flatArms_of_part {part : List Token} {arms : TokenArms} (hpart : part ∈ armParts arms) :
    flatAll part <:+: flatArms arms := by
  fun_induction armParts arms with
  | case1 => cases hpart
  | case2 body =>
    obtain rfl := mem_singleton.mp hpart
    exact (suffix_cons _ _).isInfix
  | case3 condition result rest ih =>
    rw [flatArms]
    rcases mem_cons.mp hpart with rfl | hpart
    · exact ⟨[.keyword .WHEN], .keyword .THEN :: (flatAll result ++ flatArms rest), by simp⟩
    · rcases mem_cons.mp hpart with rfl | hpart
      · exact ⟨.keyword .WHEN :: (flatAll condition ++ [.keyword .THEN]), flatArms rest, by simp⟩
      · exact (ih hpart).trans ⟨.keyword .WHEN :: (flatAll condition ++ .keyword .THEN :: flatAll result),
          [], by simp⟩

/-- What a token holds is settled itself, or written out as a part of the token. -/
theorem part_cases {part : List Token} (hpart : part ∈ parts t) :
    (∃ inner, t = .paren inner ∧ part = inner) ∨ (∃ fn args, t = .call fn args ∧ part ∈ args) ∨
      flatAll part <:+: flat t := by
  cases t with
  | paren inner => exact .inl ⟨inner, rfl, mem_singleton.mp hpart⟩
  | call fn args => exact .inr (.inl ⟨fn, args, rfl, hpart⟩)
  | comparison left op right | operation left op right =>
    refine .inr (.inr ?_)
    simp only [parts, mem_cons, not_mem_nil, or_false] at hpart
    rcases hpart with rfl | rfl
    · exact ⟨[], .operator op.text :: flat right, by simp [flatAll, flat]⟩
    · exact ⟨flat left ++ [.operator op.text], [], by simp [flatAll, flat]⟩
  | caseOf operand arms =>
    refine .inr (.inr ?_)
    rcases mem_cons.mp hpart with rfl | hpart
    · exact ⟨[.keyword .CASE], flatArms arms ++ [.keyword .END], by simp [flat]⟩
    · exact (infix_flatArms_of_part hpart).trans
        ⟨.keyword .CASE :: flatAll operand, [.keyword .END], by simp [flat]⟩
  | aliased t label =>
    refine .inr (.inr ?_)
    obtain rfl := mem_singleton.mp hpart
    exact ⟨[], [.keyword .AS, .name none label], by simp [flatAll, flat]⟩
  | _ => cases hpart

theorem infix_flatAll_of_mem (ht : t ∈ tokens) : flat t <:+: flatAll tokens := by
  obtain ⟨before, after, rfl⟩ := append_of_mem ht
  exact ⟨flatAll before, flatAll after, by simp [flatAll_append, flatAll]⟩

theorem chain_of_infix {R : Option Token → Token → Prop} {previous : Option Token} {xs ys : List Token}
    (h : Chain R previous ys) (hwithin : xs <:+: ys) : ∃ previous', Chain R previous' xs := by
  obtain ⟨before, after, rfl⟩ := hwithin
  exact ⟨_, (chain_append.mp (chain_append.mp h).1).2⟩

/-- Each level stands where it may, if the tokens do. -/
theorem stands_of_level {level : List Token} (hlevel : Level tokens level)
    (h : Chain (Stands keyed) none (flatAll tokens)) :
    ∃ previous, Chain (Stands keyed) previous (flatAll level) := by
  induction hlevel with
  | self => exact ⟨none, h⟩
  | @inner level within t outer mem part ih =>
    obtain ⟨previous, hlevel⟩ := ih
    have hsettled (hflat : flat t = [t]) : Settled keyed t :=
      (chain_stands.mp hlevel).2 t ((infix_flatAll_of_mem mem).subset (by simp [hflat]))
    rcases part_cases part with ⟨inner, rfl, rfl⟩ | ⟨fn, args, rfl, harg⟩ | hwithin
    · cases hsettled rfl with
      | paren again formed fits settled => exact ⟨none, chain_stands.mpr ⟨fits, settled⟩⟩
    · cases hsettled rfl with
      | call name again formed fits settled =>
        exact ⟨none, chain_stands.mpr ⟨fits within harg, settled within harg⟩⟩
    · exact chain_of_infix hlevel (hwithin.trans (infix_flatAll_of_mem mem))

theorem signsApart_of_stands (h : Chain (Stands false) none (flatAll tokens)) : SignsApart tokens := by
  intro level hlevel column number hcolumn hnumber hwithin
  obtain ⟨previous, hstands⟩ := stands_of_level hlevel h
  obtain ⟨previous, -, ⟨⟨hsign, -⟩, -⟩, -⟩ := chain_of_infix hstands hwithin
  rcases hsign hnumber with hopens | ⟨hkeyed, -⟩
  · cases column <;> first | cases hcolumn | cases hopens
  · cases hkeyed

end

/-- The tokens of a text are read again from the text that they are written as, exactly if no column of
a table stands directly before a number below zero. -/
theorem reads_again_iff {sql : String} {tokens : List Token} {holes : Nat}
    (h : ofText sql = .ok (tokens, holes)) (hwritable : Writable tokens) :
    (∃ holes', ofText (textAll tokens) = .ok (tokens, holes')) ↔ SignsApart tokens := by
  obtain ⟨⟨lexemes, _⟩, hlex, h⟩ := Compiled.bind_eq_ok.mp h
  obtain ⟨_, hgroup, h⟩ := Compiled.bind_eq_ok.mp h
  cases h
  obtain ⟨hagain, hformed, hstands⟩ := settled_of_group (LexState.fit_of_lex (s := .initial _) hlex) hgroup
  obtain ⟨written, holes', hwritten, hspelled⟩ :=
    exists_spelled hwritable hformed (chain_stands.mp hstands).2
  have htext : ofText (textAll tokens) = (group written >>= fun again => .ok (again, holes')) := by
    rw [ofText, hwritten]
    rfl
  constructor
  · rintro ⟨_, hread⟩
    rw [htext] at hread
    obtain ⟨_, hgroup, hread⟩ := Compiled.bind_eq_ok.mp hread
    cases hread
    have hfit : Lexeme.Fit false none written := hspelled.fit (chain_stands.mp hstands).2 rfl nofun
    exact signsApart_of_stands (settled_of_group hfit hgroup).2.2
  · intro hapart
    rw [htext, hspelled.group_eq hagain (hapart.stands hstands)]
    exact ⟨holes', rfl⟩

namespace Sample

/-- The tokens of `t.key -5`. -/
def keyedColumn : List Token := [.name (some "t") "key", .literal (.int (-5))]

/-- Its lexemes: behind a keyword the sign belongs to the number. -/
def keyedLexemes : List Lexeme :=
  [⟨.name "t", false, 0⟩, ⟨.dot, false, 1⟩, ⟨.keyword .KEY, false, 2⟩, ⟨.number "-5", true, 6⟩]

theorem ofText_keyedColumn : ofText "t.key -5" = .ok (keyedColumn, 0) := by
  have hlex : lex "t.key -5" = .ok (keyedLexemes, 0) := by decide +kernel
  have hgroup : group keyedLexemes = .ok keyedColumn := by cbv
  rw [ofText, hlex]
  exact congrArg (· >>= fun tokens => .ok (tokens, 0)) hgroup

theorem writable_keyedColumn : Writable keyedColumn := by
  intro level hlevel
  obtain rfl : level = keyedColumn := by
    induction hlevel with
    | self => rfl
    | inner outer mem part ih =>
      rw [ih] at mem
      rcases mem_cons.mp mem with rfl | mem
      · cases part
      · obtain rfl := mem_singleton.mp mem
        cases part
  refine ⟨fun t ht => ?_, fun k hk run hrun hwithin => ?_⟩
  · rcases mem_cons.mp ht with rfl | ht
    · exact ⟨fun table htable => Option.mem_some.mp htable ▸ by decide, by decide⟩
    · obtain rfl := mem_singleton.mp ht
      trivial
  · -- there is no keyword among the tokens
    obtain ⟨hne, hjoin⟩ := isJoinWord_of_compound hk hrun
    obtain ⟨w, run, rfl⟩ := exists_cons_of_ne_nil hne
    have hmem : Token.keyword w ∈ keyedColumn := hwithin.subset mem_cons_self
    simp [keyedColumn] at hmem

/-- A column spelled as a keyword with a negative number behind it is written as a text that is read
as a difference. -/
theorem keyedColumn_misread : ofText "t.key -5" = .ok (keyedColumn, 0) ∧ Writable keyedColumn ∧
    ¬∃ holes', ofText (textAll keyedColumn) = .ok (keyedColumn, holes') := by
  refine ⟨ofText_keyedColumn, writable_keyedColumn, fun hread => ?_⟩
  have hapart := (reads_again_iff ofText_keyedColumn writable_keyedColumn).mp hread
  exact hapart keyedColumn .self _ _ rfl rfl List.infix_rfl

end Sample

end Token

end DocSql
