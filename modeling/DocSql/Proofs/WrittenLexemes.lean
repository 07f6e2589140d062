import DocSql.Proofs.TokenLayout

/-! # The lexemes of written tokens

A level that is written out as text is divided into the lexemes of its tokens again
(`Laid.spelled`).  Only the sign of a number is read in another way where no operand may come: there it
is an operator (`Spelled.minus`).  The text of a token is read where a text follows that ends it
(`Divides`), and the text of a level token by token.
-/
namespace DocSql

open Text List

variable {whole : List Char} {done : List Lexeme} {s : LexState} {kind : LexemeKind}

/-- A piece that is one lexeme is the next one of a run. -/
theorem Lexing.next {holes : Nat} (h : Lexing whole done s) {gap : List Char}
    (hgap : ∀ c ∈ gap, c = ' ') (piece rest : List Char) (hs : s.rest = gap ++ (piece ++ rest))
    (hscan : Scans s.previous s.holes piece rest kind holes) :
    ∃ l s', Lexing whole (done ++ [l]) s' ∧ l.kind = kind ∧ (gap = [] → l.spaced = false) ∧
      s'.rest = rest ∧ s'.previous = some kind := by
  obtain ⟨c, p, rfl, hblank, hscan⟩ := hscan.scan_eq
  have hblanks : s.blanks = gap.length := by
    have hrun : (gap ++ (c :: p ++ rest)).takeWhile isBlank = gap := by
      refine Scan.takeWhile_append_eq_iff.mpr ⟨fun d hd => hgap d hd ▸ rfl, ?_⟩
      exact hblank
    rw [LexState.blanks, hs, hrun]
  have hnext : s.scan? = some (.ok ⟨kind, p.length, holes⟩) := by
    rw [LexState.scan?, hblanks, hs, drop_left]
    exact congrArg some hscan
  refine ⟨_, _, h.step hnext, rfl, ?_, ?_, rfl⟩
  · rintro rfl
    show decide (0 < s.blanks) = false
    rw [hblanks]
    rfl
  · show s.rest.drop (s.blanks + (p.length + 1)) = rest
    rw [hs, hblanks, ← drop_drop, drop_left, cons_append, drop_succ_cons, drop_left]

namespace Token

variable {t : Token} {rest : List Char} {tokens : List Token} {keyed : Bool}

/-! ### Lexemes that spell tokens -/

/-- The lexeme of a token that is written as one. -/
def lexeme? : Token → Option LexemeKind
  | .keyword k => some (.keyword k)
  | .name none column => some (.quoted column)
  | .literal .null => some .null
  | .literal (.bool b) => some (.bool b)
  | .literal (.int n) => some (.number (toString n))
  | .literal (.string s) => some (.string s)
  | .placeholder i => some (.placeholder i)
  | .wildcard => some .star
  | .punctuation c => if c = ',' then some .comma else some .semicolon
  | .operator op => if op = "*" then some .star else some (.operator op)
  | _ => none

/-- The lexemes of written tokens.  At their start an operand may come if `opens` says so; where none
may come, the sign of a number is an operator. -/
inductive Spelled : Bool → List Token → List Lexeme → Prop
  | nil {opens : Bool} : Spelled opens [] []
  | single {opens : Bool} {t : Token} {tokens : List Token} {l : Lexeme} {lexemes : List Lexeme}
    (kind : lexeme? t = some l.kind) (sign : t.isNegative = true → opens = true)
    (more : Spelled (Scan.opensOperand (some l.kind)) tokens lexemes) :
    Spelled opens (t :: tokens) (l :: lexemes)
  | minus {n : Nat} {tokens : List Token} {sign number : Lexeme} {lexemes : List Lexeme}
    (sign_kind : sign.kind = .operator "-") (kind : number.kind = .number (toString (n + 1)))
    (more : Spelled false tokens lexemes) :
    Spelled false (.literal (.int (.negSucc n)) :: tokens) (sign :: number :: lexemes)
  | qualified {opens : Bool} {table column : String} {tokens : List Token} {first dot second : Lexeme}
    {lexemes : List Lexeme} (first_kind : first.kind = .quoted table) (dot_kind : dot.kind = .dot)
    (second_kind : second.kind = .quoted column) (more : Spelled false tokens lexemes) :
    Spelled opens (.name (some table) column :: tokens) (first :: dot :: second :: lexemes)
  | paren {opens : Bool} {inner tokens : List Token} {left right : Lexeme} {held lexemes : List Lexeme}
    (left_kind : left.kind = .lparen) (right_kind : right.kind = .rparen)
    (within : Spelled true (flatAll inner) held) (more : Spelled false tokens lexemes) :
    Spelled opens (.paren inner :: tokens) (left :: (held ++ right :: lexemes))
  | call {opens : Bool} {fn : String} {args : List (List Token)} {tokens : List Token}
    {name left right : Lexeme} {held lexemes : List Lexeme} (name_kind : name.kind = .name fn)
    (left_kind : left.kind = .lparen) (close : left.spaced = false) (right_kind : right.kind = .rparen)
    (within : Spelled true (flatArgs args) held) (more : Spelled false tokens lexemes) :
    Spelled opens (.call fn args :: tokens) (name :: left :: (held ++ right :: lexemes))

/-- Where the rest follows, the text of the token is divided into lexemes that spell it, in front of
what is spelled behind it. -/
def Divides (t : Token) (rest : List Char) : Prop :=
  ∀ (whole gap : List Char) (done : List Lexeme) (s : LexState), Lexing whole done s →
    (∀ c ∈ gap, c = ' ') → s.rest = gap ++ (t.text.toList ++ rest) →
    ∃ lexemes s', Lexing whole (done ++ lexemes) s' ∧ s'.rest = rest ∧
      ∀ tokens more, Spelled (Scan.opensOperand s'.previous) tokens more →
        Spelled (Scan.opensOperand s.previous) (t :: tokens) (lexemes ++ more)

/-- No compound keyword starts at the token. -/
def NoCompound (t : Token) (rest : List Char) : Prop :=
  ∀ k ∈ Keyword.words, t = .keyword k → compound? (k.text.toList ++ rest) = none

theorem divides_single (hkind : lexeme? t = some kind) (hsign : t.isNegative = false)
    (hscan : ∀ previous holes, ∃ holes', Scans previous holes t.text.toList rest kind holes') :
    Divides t rest := by
  intro whole gap done s hs hgap hrest
  obtain ⟨holes', hscan⟩ := hscan s.previous s.holes
  obtain ⟨l, s', hs', rfl, -, hrest', hprevious⟩ := hs.next hgap _ _ hrest hscan
  refine ⟨[l], s', hs', hrest', fun tokens more hmore => .single hkind ?_ ?_⟩
  · rw [hsign]
    exact nofun
  · rw [← hprevious]
    exact hmore

theorem divides_literalWord (word : String) (hword : word ∈ ["NULL", "TRUE", "FALSE"]) {l : Literal}
    (htext : l.text = word) (hkind : lexeme? (.literal l) = some kind)
    (hofWord : Scan.ofWord word = kind) (hended : Ended rest) : Divides (.literal l) rest := by
  have hsign : (Token.literal l).isNegative = false := by
    cases l <;> first | rfl | skip
    cases hkind
    unfold Scan.ofWord at hofWord
    grind
  refine divides_single hkind hsign fun _ holes => ⟨holes, ?_⟩
  rw [show text (.literal l) = word from htext, ← hofWord]
  exact scans_literalWord hword hended

theorem divides_qualified {table column : String} (htable : '\x22' ∉ table.toList)
    (hcolumn : '\x22' ∉ column.toList) : Divides (.name (some table) column) rest := by
  intro whole gap done s hs hgap hrest
  rw [toList_text_qualified] at hrest
  obtain ⟨first, s₁, hs₁, hfirst, -, hrest₁, -⟩ :=
    hs.next hgap _ ('.' :: ('\x22' :: (column.toList ++ ['\x22']) ++ rest)) (by rw [hrest]; simp)
      (scans_quoted htable)
  obtain ⟨dot, s₂, hs₂, hdot, -, hrest₂, -⟩ :=
    hs₁.next (forall_mem_nil _) ['.'] _ hrest₁ (scans_dot rfl)
  obtain ⟨second, s₃, hs₃, hsecond, -, hrest₃, hprevious⟩ :=
    hs₂.next (forall_mem_nil _) _ _ hrest₂ (scans_quoted hcolumn)
  refine ⟨[first, dot, second], s₃, by simpa using hs₃, hrest₃, fun tokens more hmore => ?_⟩
  rw [hprevious] at hmore
  exact .qualified hfirst hdot hsecond hmore

theorem number_negSucc (n : Nat) :
    String.ofList ('-' :: Nat.toDigits 10 (n + 1)) = toString (Int.negSucc n) := by
  rw [← String.toList_inj, String.toList_ofList]
  exact (toList_text_negative n).symm

/-- The sign of a number belongs to it only where an operand may come. -/
theorem divides_negative (n : Nat) (hended : Ended rest) :
    Divides (.literal (.int (.negSucc n))) rest := by
  intro whole gap done s hs hgap hrest
  rw [toList_text_negative] at hrest
  cases hopens : Scan.opensOperand s.previous with
  | true =>
    obtain ⟨l, s', hs', hl, -, hrest', hprevious⟩ :=
      hs.next hgap _ _ hrest (scans_negative (n + 1) hopens hended)
    refine ⟨[l], s', hs', hrest', fun tokens more hmore => .single ?_ (fun _ => rfl) ?_⟩
    · rw [hl, number_negSucc]
      rfl
    · rw [hl, ← hprevious]
      exact hmore
  | false =>
    obtain ⟨sign, s₁, hs₁, hsign, -, hrest₁, -⟩ :=
      hs.next hgap ['-'] _ hrest (scans_minus hopens)
    obtain ⟨number, s₂, hs₂, hnumber, -, hrest₂, hprevious⟩ :=
      hs₁.next (forall_mem_nil _) _ _ hrest₁ (scans_nat (n + 1) hended)
    refine ⟨[sign, number], s₂, by simpa using hs₂, hrest₂, fun tokens more hmore => ?_⟩
    rw [hprevious] at hmore
    exact .minus hsign hnumber hmore

/-! ### Levels -/

theorem Runless.tail (h : Runless (t :: tokens)) : Runless tokens :=
  fun k hk run hrun hwithin => h k hk run hrun (hwithin.trans (suffix_cons t tokens).isInfix)

/-- The text of a level is divided token by token, up to what comes behind the level. -/
theorem Laid.spelled {first : Bool} {text after : List Char} (h : Laid first tokens text)
    (hsettled : ∀ t ∈ tokens, Settled keyed t) (hlegible : ∀ t ∈ tokens, Legible t)
    (hrunless : Runless tokens) (hafter : Laid.Closed after)
    (hdivides : ∀ t ∈ tokens, ∀ rest, Ended rest → NoCompound t rest → Divides t rest)
    (hs : Lexing whole done s) (hrest : s.rest = text ++ after) :
    ∃ lexemes s' gap, Lexing whole (done ++ lexemes) s' ∧ (∀ c ∈ gap, c = ' ') ∧
      s'.rest = gap ++ after ∧ Spelled (Scan.opensOperand s.previous) tokens lexemes := by
  induction h generalizing done s with
  | @nil _ gap blanks => exact ⟨[], s, gap, by simpa using hs, blanks, hrest, .nil⟩
  | @cons _ t tokens gap text blanks apart more ih =>
    obtain ⟨-, hsettledMore⟩ := forall_mem_cons.mp hsettled
    obtain ⟨-, hlegibleMore⟩ := forall_mem_cons.mp hlegible
    obtain ⟨ht, hdividesMore⟩ := forall_mem_cons.mp hdivides
    have hcompound : NoCompound t (text ++ after) := by
      rintro k hk rfl
      exact more.compound?_eq_none hk hsettledMore hlegibleMore hrunless hafter
    obtain ⟨lexemes, s₁, hs₁, hrest₁, hspelled⟩ :=
      ht _ (more.ended hafter.ended) hcompound _ _ _ _ hs blanks (by simpa using hrest)
    obtain ⟨lexemes', s₂, gap', hs₂, hgap', hrest₂, hmore⟩ :=
      ih hsettledMore hlegibleMore hrunless.tail hdividesMore hs₁ hrest₁
    exact ⟨lexemes ++ lexemes', s₂, gap', by simpa using hs₂, hgap', hrest₂, hspelled _ _ hmore⟩

/-- The tokens can be written so that they are read again: on each level every token is legible, and no
keywords side by side spell a compound one. -/
def Writable (tokens : List Token) : Prop :=
  ∀ level, Level tokens level → (∀ t ∈ level, Legible t) ∧ Runless level

section

variable {args : List (List Token)}

theorem Writable.part {part : List Token} (h : Writable tokens) (ht : t ∈ flatAll tokens)
    (hpart : part ∈ parts t) : Writable part :=
  fun level hlevel => h level ((level_of_mem_flatAll ht hpart).trans hlevel)

theorem Writable.legible (h : Writable tokens) (ht : t ∈ flatAll tokens) : Legible t := by
  cases occurs_flatAll tokens (fun _ h => h) ht with
  | token hlevel hmem => exact (h _ hlevel).1 t hmem
  | keyword | operator => trivial
  | label hlevel hmem => exact ⟨nofun, (h _ hlevel).1 _ hmem⟩

set_option maxRecDepth 8000 in
/-- The words of a compound keyword that are keywords are join words. -/
theorem isJoinWord_of_compound {k : Keyword} (hk : k ∈ Keyword.compounds) {run : List Keyword}
    (hrun : run.map Keyword.text = k.parts) :
    run ≠ [] ∧ ∀ r ∈ run.map Token.keyword, r.isJoinWord = true := by
  have hall : (Keyword.compounds.all fun k => !k.parts.isEmpty && k.parts.all fun word =>
      (Keyword.words ++ Keyword.compounds).all fun w => w.text != word || w ∈ joinWords) = true := by
    decide
  have hk := all_eq_true.mp hall k hk
  rw [← hrun, Bool.and_eq_true] at hk
  refine ⟨by simpa using hk.1, fun r hr => ?_⟩
  obtain ⟨w, hw, rfl⟩ := mem_map.mp hr
  have hword := all_eq_true.mp (all_eq_true.mp hk.2 w.text (mem_map_of_mem hw)) w
    (mem_append.mpr w.mem_words_or_compounds)
  simpa [isJoinWord] using hword

theorem Writable.runless (h : Writable tokens) (hformed : ∀ t ∈ tokens, Formed t) :
    Runless (flatAll tokens) := by
  intro k hk run hrun hwithin
  obtain ⟨hne, hjoin⟩ := isJoinWord_of_compound hk hrun
  obtain ⟨level, hlevel, hwithin⟩ := level_of_run hjoin (by simpa using hne) hformed hwithin
  exact (h level hlevel).2 k hk run hrun hwithin

theorem runless_flatArgs (h : ∀ arg ∈ args, Writable arg)
    (hformed : ∀ arg ∈ args, ∀ t ∈ arg, Formed t) : Runless (flatArgs args) := by
  intro k hk run hrun hwithin
  obtain ⟨hne, hjoin⟩ := isJoinWord_of_compound hk hrun
  obtain ⟨arg, harg, hwithin⟩ := arg_of_run hjoin (by simpa using hne) hwithin
  exact (h arg harg).runless (hformed arg harg) k hk run hrun hwithin

/-- What holds of the comma and of the tokens of the arguments holds of what they are written as. -/
theorem forall_mem_flatArgs {P : Token → Prop} (hcomma : P (.punctuation ','))
    (h : ∀ arg ∈ args, ∀ t ∈ flatAll arg, P t) : ∀ t ∈ flatArgs args, P t := by
  fun_induction flatArgs args with
  | case1 => exact forall_mem_nil _
  | case2 arg => exact h arg mem_cons_self
  | case3 arg rest _ ih =>
    obtain ⟨harg, hrest⟩ := forall_mem_cons.mp h
    exact forall_mem_append.mpr ⟨harg, forall_mem_cons.mpr ⟨hcomma, ih hrest⟩⟩

end

/-! ### All tokens -/

theorem divides_comma : Divides (.punctuation ',') rest :=
  divides_single rfl rfl fun _ holes => ⟨holes, scans_mark (by decide)⟩

/-- A level in parentheses is divided up to the closing one. -/
theorem divides_within {text : List Char} (h : Laid true tokens text)
    (hsettled : ∀ t ∈ tokens, Settled keyed t) (hlegible : ∀ t ∈ tokens, Legible t)
    (hrunless : Runless tokens)
    (hdivides : ∀ t ∈ tokens, ∀ rest, Ended rest → NoCompound t rest → Divides t rest)
    (hs : Lexing whole done s) (hrest : s.rest = text ++ ')' :: rest) :
    ∃ held right s', Lexing whole (done ++ held ++ [right]) s' ∧ right.kind = .rparen ∧
      s'.rest = rest ∧ s'.previous = some .rparen ∧
      Spelled (Scan.opensOperand s.previous) tokens held := by
  obtain ⟨held, s₁, gap, hs₁, hgap, hrest₁, hheld⟩ :=
    h.spelled hsettled hlegible hrunless (.inr ⟨rest, rfl⟩) hdivides hs hrest
  obtain ⟨right, s₂, hs₂, hright, -, hrest₂, hprevious⟩ :=
    hs₁.next hgap [')'] rest hrest₁ (scans_mark (show (')', .rparen) ∈ marks by decide))
  exact ⟨held, right, s₂, hs₂, hright, hrest₂, hprevious, hheld⟩

/-- The text of a settled token is divided into lexemes that spell it. -/
theorem Settled.divides (h : Settled keyed t) (hlegible : Legible t)
    (hwritable : ∀ part ∈ parts t, Writable part) (hended : Ended rest)
    (hcompound : NoCompound t rest) : Divides t rest := by
  induction h generalizing rest with
  | keyword k =>
    refine divides_single rfl rfl fun _ holes => ⟨holes, ?_⟩
    rcases k.mem_words_or_compounds with hk | hk
    · exact scans_word hk hended (hcompound k hk rfl)
    · exact scans_compound hk hended
  | name qualifier column =>
    cases qualifier with
    | none =>
      refine divides_single rfl rfl fun _ holes => ⟨holes, ?_⟩
      rw [toList_text_name]
      exact scans_quoted hlegible.2
    | some table => exact divides_qualified (hlegible.1 table rfl) hlegible.2
  | @literal l fits =>
    cases l with
    | null => exact divides_literalWord "NULL" (by decide) rfl rfl ofWord_null hended
    | bool b =>
      cases b with
      | true => exact divides_literalWord "TRUE" (by decide) rfl rfl ofWord_true hended
      | false => exact divides_literalWord "FALSE" (by decide) rfl rfl ofWord_false hended
    | int n =>
      cases n with
      | ofNat n =>
        refine divides_single rfl rfl fun _ holes => ⟨holes, ?_⟩
        rw [show (text (.literal (.int (.ofNat n)))).toList = _ from toList_text_nat n]
        exact scans_nat n hended
      | negSucc n => exact divides_negative n hended
    | float x => exact hlegible.elim
    | string s =>
      refine divides_single rfl rfl fun _ holes => ⟨holes, ?_⟩
      rw [show text (.literal (.string s)) = Literal.quote s from rfl]
      exact scans_string (hended.any_head rfl rfl rfl)
  | placeholder i =>
    refine divides_single rfl rfl fun _ holes => ⟨max holes (i + 1), ?_⟩
    rw [toList_text_placeholder]
    exact scans_placeholder hlegible
  | wildcard => exact divides_single rfl rfl fun _ holes => ⟨holes, scans_mark (by decide)⟩
  | punctuation mark =>
    rcases mark with rfl | rfl
    · exact divides_comma
    · exact divides_single rfl rfl fun _ holes => ⟨holes, scans_mark (by decide)⟩
  | @operator op sign =>
    by_cases hstar : op = "*"
    · subst hstar
      exact divides_single rfl rfl fun _ holes => ⟨holes, scans_mark (by decide)⟩
    · refine divides_single (if_neg hstar) rfl fun _ holes => ⟨holes, ?_⟩
      exact scans_operator (sign.resolve_right hstar) hended
  | @paren inner again formed fits settled ih =>
    intro whole gap done s hs hgap hrest
    have hinner : Writable inner := hwritable inner mem_cons_self
    rw [toList_text_paren] at hrest
    obtain ⟨left, s₁, hs₁, hleft, -, hrest₁, hopens⟩ :=
      hs.next hgap ['('] ((textAll inner).toList ++ ')' :: rest) (by rw [hrest]; simp)
        (scans_mark (show ('(', .lparen) ∈ marks by decide))
    obtain ⟨held, right, s₂, hs₂, hright, hrest₂, hprevious, hheld⟩ :=
      divides_within (laid_flatAll inner) settled (fun t ht => hinner.legible ht)
        (hinner.runless formed)
        (fun t ht rest => ih t ht (hinner.legible ht) fun part hpart => hinner.part ht hpart) hs₁ hrest₁
    refine ⟨left :: (held ++ [right]), s₂, by simpa using hs₂, hrest₂, fun tokens more hmore => ?_⟩
    rw [hopens] at hheld
    rw [hprevious] at hmore
    simpa using Spelled.paren hleft hright hheld hmore
  | @call fn args name again formed fits settled ih =>
    intro whole gap done s hs hgap hrest
    rw [toList_text_call] at hrest
    obtain ⟨word, s₁, hs₁, hword, -, hrest₁, -⟩ :=
      hs.next hgap _ ('(' :: ((textArgs args).toList ++ ')' :: rest)) (by rw [hrest]; simp)
        (scans_name name)
    obtain ⟨left, s₂, hs₂, hleft, hclose, hrest₂, hopens⟩ :=
      hs₁.next (forall_mem_nil _) ['('] _ hrest₁ (scans_mark (show ('(', .lparen) ∈ marks by decide))
    have hargs {arg : List Token} (harg : arg ∈ args) : Writable arg := hwritable arg harg
    obtain ⟨held, right, s₃, hs₃, hright, hrest₃, hprevious, hheld⟩ :=
      divides_within (laid_flatArgs args)
        (forall_mem_flatArgs (.punctuation (.inl rfl)) settled)
        (forall_mem_flatArgs trivial fun arg harg t ht => (hargs harg).legible ht)
        (runless_flatArgs (fun arg harg => hargs harg) formed)
        (forall_mem_flatArgs (fun _ _ _ => divides_comma) fun arg harg t ht rest =>
          ih arg harg t ht ((hargs harg).legible ht) fun part hpart => (hargs harg).part ht hpart)
        hs₂ hrest₂
    refine ⟨word :: left :: (held ++ [right]), s₃, by simpa using hs₃, hrest₃, fun tokens more hmore => ?_⟩
    rw [hopens] at hheld
    rw [hprevious] at hmore
    simpa using Spelled.call hword hleft (hclose rfl) hright hheld hmore

/-- The text of a level is divided into lexemes that spell what it is written out as. -/
theorem exists_spelled (hwritable : Writable tokens) (hformed : ∀ t ∈ tokens, Formed t)
    (hsettled : ∀ t ∈ flatAll tokens, Settled keyed t) :
    ∃ lexemes holes, lex (textAll tokens) = .ok (lexemes, holes) ∧
      Spelled true (flatAll tokens) lexemes := by
  have hdivides (t : Token) (ht : t ∈ flatAll tokens) (rest : List Char) (hended : Ended rest)
      (hcompound : NoCompound t rest) : Divides t rest :=
    (hsettled t ht).divides (hwritable.legible ht) (fun part hpart => hwritable.part ht hpart) hended
      hcompound
  obtain ⟨lexemes, s, gap, hs, hgap, hrest, hspelled⟩ :=
    (laid_flatAll tokens).spelled hsettled (fun t ht => hwritable.legible ht)
      (hwritable.runless hformed) (.inl rfl) hdivides (@Lexing.start (textAll tokens).toList)
      (append_nil _).symm
  have hend : s.scan? = none := by
    have hblanks : s.rest.drop s.blanks = [] := by
      have hrun : (gap ++ []).takeWhile isBlank = gap :=
        Scan.takeWhile_append_eq_iff.mpr ⟨Laid.isBlank_of_space hgap, rfl⟩
      rw [LexState.blanks, hrest, hrun, append_nil, drop_length]
    rw [LexState.scan?, hblanks]
  refine ⟨lexemes, s.holes, ?_, hspelled⟩
  have hlex := hs.lex_eq
  rw [s.lex_eq, hend] at hlex
  rw [show lex (textAll tokens) = (LexState.initial (textAll tokens).toList).lex from rfl, hlex]
  simp

end Token

end DocSql
