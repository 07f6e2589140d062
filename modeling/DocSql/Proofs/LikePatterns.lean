import DocSql.Condition.Like
import DocSql.Term.Basic

/-! # LIKE patterns and their regular expressions

A LIKE pattern matches a text by rules of its own (`Like`): `%` stands for any text, `_` for any
character, a backslash for the character behind it, and every other character for itself.

The regular expression of a pattern is a text again, which the store reads and searches with.
`Regex.read?` reads the part of the store's syntax that such texts are written in: anchors, the dot,
the star, and characters with or without a backslash.  Whatever means something else to the store
(groups, classes, alternatives, other quantifiers, escapes that are letters or digits) is not read
at all.  `Regex.finds` searches by backtracking, and takes as many characters as it can for a star
first.  Which characters end a line is a setting of the store: a dot does not match them, and the
end anchor also holds before a last one.

The text of a pattern is read as one element for each element of the pattern, between two anchors
(`read?_likeRegex`), and is found in a text of one line exactly if the pattern matches it
(`likeRegex_matches`).
-/
namespace DocSql
open List

variable {c : Char} {s : List Char} {rest : List Glyph}

/-! ### Matching a pattern -/

/-- What a LIKE pattern matches. -/
inductive Like : List Char → List Char → Prop
  | nil : Like [] []
  | anyText {p s : List Char} (text : List Char) (h : Like p s) : Like ('%' :: p) (text ++ s)
  | anyChar {p s : List Char} (c : Char) (h : Like p s) : Like ('_' :: p) (c :: s)
  | escaped {p s : List Char} (c : Char) (h : Like p s) : Like ('\\' :: c :: p) (c :: s)
  /-- A backslash with nothing behind it. -/
  | lone : Like ['\\'] []
  | plain {p s : List Char} (c : Char) (hsign : c ≠ '%' ∧ c ≠ '_' ∧ c ≠ '\\') (h : Like p s) :
    Like (c :: p) (c :: s)

/-- The first characters of a pattern say what the text has to start with. -/
theorem Like.cons_iff {p : List Char} : Like (c :: p) s ↔
    (c = '%' ∧ ∃ text rest, s = text ++ rest ∧ Like p rest) ∨
    (c = '_' ∧ ∃ d rest, s = d :: rest ∧ Like p rest) ∨
    (c = '\\' ∧ p = [] ∧ s = []) ∨
    (c = '\\' ∧ ∃ e p' rest, p = e :: p' ∧ s = e :: rest ∧ Like p' rest) ∨
    ((c ≠ '%' ∧ c ≠ '_' ∧ c ≠ '\\') ∧ ∃ rest, s = c :: rest ∧ Like p rest) := by
  constructor
  · intro h
    cases h with
    | anyText text h => exact .inl ⟨rfl, text, _, rfl, h⟩
    | anyChar d h => exact .inr (.inl ⟨rfl, d, _, rfl, h⟩)
    | lone => exact .inr (.inr (.inl ⟨rfl, rfl, rfl⟩))
    | escaped e h => exact .inr (.inr (.inr (.inl ⟨rfl, e, _, _, rfl, rfl, h⟩)))
    | plain c hsign h => exact .inr (.inr (.inr (.inr ⟨hsign, _, rfl, h⟩)))
  · rintro (⟨rfl, text, rest, rfl, h⟩ | ⟨rfl, d, rest, rfl, h⟩ | ⟨rfl, rfl, rfl⟩ |
      ⟨rfl, e, p', rest, rfl, rfl, h⟩ | ⟨hsign, rest, rfl, h⟩)
    · exact .anyText text h
    · exact .anyChar d h
    · exact .lone
    · exact .escaped e h
    · exact .plain c hsign h

theorem Like.nil_iff : Like [] s ↔ s = [] := by
  constructor
  · rintro ⟨⟩
    rfl
  · rintro rfl
    exact .nil

section

variable {p : List Char}

theorem Like.percent_iff : Like ('%' :: p) s ↔ ∃ text rest, s = text ++ rest ∧ Like p rest := by
  grind [Like.cons_iff]

theorem Like.underscore_iff : Like ('_' :: p) s ↔ ∃ c rest, s = c :: rest ∧ Like p rest := by
  grind [Like.cons_iff]

theorem Like.lone_iff : Like ['\\'] s ↔ s = [] := by
  grind [Like.cons_iff]

theorem Like.escaped_iff : Like ('\\' :: c :: p) s ↔ ∃ rest, s = c :: rest ∧ Like p rest := by
  grind [Like.cons_iff]

theorem Like.plain_iff (hsign : c ≠ '%' ∧ c ≠ '_' ∧ c ≠ '\\') :
    Like (c :: p) s ↔ ∃ rest, s = c :: rest ∧ Like p rest := by
  grind [Like.cons_iff]

end

/-! ### Regular expressions -/

namespace Regex

/-- What one character is matched by. -/
inductive Atom where
  | any
  | char (c : Char)
  deriving DecidableEq

/-- A part of an expression. -/
inductive Node where
  /-- The start of the text. -/
  | start
  /-- The end of the text. -/
  | finish
  | one (a : Atom)
  /-- Any number of characters that the atom matches. -/
  | many (a : Atom)
  deriving DecidableEq

/-- A character of an expression: one that stands for itself, or a sign. -/
inductive Glyph where
  | char (c : Char)
  | sign (c : Char)

/-- The characters that are signs where no backslash stands before them. -/
def isSign (c : Char) : Bool := "^$.[|()?*+\x7b".toList.contains c

/-- Takes the backslashes away.  Before a letter or a digit a backslash has another meaning. -/
def glyphs : List Char → Option (List Glyph)
  | [] => some []
  | ['\\'] => none
  | '\\' :: c :: rest => if c.isAlphanum then none else (glyphs rest).map (.char c :: ·)
  | c :: rest => (glyphs rest).map ((if isSign c then .sign c else .char c) :: ·)

/-- The part of an expression that a glyph is by itself. -/
def Glyph.node? : Glyph → Option Node
  | .char c => some (.one (.char c))
  | .sign '.' => some (.one .any)
  | .sign '^' => some .start
  | .sign '$' => some .finish
  | .sign _ => none

/-- Whether a quantifier comes next. -/
def quantifies : List Glyph → Bool
  | .sign c :: _ => "*+?\x7b".toList.contains c
  | _ => false

/-- Reads the parts of an expression.  The only quantifier is the star, and none follows it. -/
def nodes : List Glyph → Option (List Node)
  | [] => some []
  | g :: .sign '*' :: rest =>
    match g.node? with
    | some (.one a) => if quantifies rest then none else (nodes rest).map (.many a :: ·)
    | _ => none
  | g :: rest =>
    match g.node? with
    | some n => if quantifies rest then none else (nodes rest).map (n :: ·)
    | none => none

/-- Reads an expression. -/
def read? (text : String) : Option (List Node) := (glyphs text.toList).bind nodes

section

variable (newline : Char → Bool)

/-- Whether an atom matches a character. -/
def Atom.accepts : Atom → Char → Bool
  | .any, c => !newline c
  | .char c, c' => c == c'

/-- Whether the end anchor holds before a text. -/
def atEnd : List Char → Bool
  | [] => true
  | [c] => newline c
  | _ => false

/-- Takes any number of characters that an atom matches, as many as possible first, and goes on with
the rest.  `first` says whether the text starts here. -/
def takeMany (a : Atom) (go : Bool → List Char → Bool) : Bool → List Char → Bool
  | first, [] => go first []
  | first, c :: s => (a.accepts newline c && takeMany a go false s) || go first (c :: s)

/-- Whether an expression matches at the start of what is left of a text. -/
def matchesHere : List Node → Bool → List Char → Bool
  | [], _, _ => true
  | .start :: ns, first, s => first && matchesHere ns first s
  | .finish :: ns, first, s => atEnd newline s && matchesHere ns first s
  | .one _ :: _, _, [] => false
  | .one a :: ns, _, c :: s => a.accepts newline c && matchesHere ns false s
  | .many a :: ns, first, s => takeMany newline a (matchesHere ns) first s

/-- Whether an expression matches somewhere in what is left of a text. -/
def findsFrom (ns : List Node) : Bool → List Char → Bool
  | first, [] => matchesHere newline ns first []
  | first, c :: s => matchesHere newline ns first (c :: s) || findsFrom ns false s

/-- Whether an expression is found in a text. -/
def finds (ns : List Node) (text : String) : Bool := findsFrom newline ns true text.toList

end

end Regex

/-! ### Reading the expression of a pattern -/

open Regex

/-- The parts of an expression that a pattern asks for, one for each of its elements. -/
inductive LikeParts : List Char → List Node → Prop
  | nil : LikeParts [] []
  | anyText {p : List Char} {ns : List Node} (h : LikeParts p ns) :
    LikeParts ('%' :: p) (.many .any :: ns)
  | anyChar {p : List Char} {ns : List Node} (h : LikeParts p ns) :
    LikeParts ('_' :: p) (.one .any :: ns)
  | escaped {p : List Char} {ns : List Node} (c : Char) (h : LikeParts p ns) :
    LikeParts ('\\' :: c :: p) (.one (.char c) :: ns)
  | lone : LikeParts ['\\'] []
  | plain {p : List Char} {ns : List Node} (c : Char) (hsign : c ≠ '%' ∧ c ≠ '_' ∧ c ≠ '\\')
    (h : LikeParts p ns) : LikeParts (c :: p) (.one (.char c) :: ns)

namespace LikeItem

/-- The part of an expression that an element of a pattern becomes. -/
def node : LikeItem → Node
  | .anyText => .many .any
  | .anyChar => .one .any
  | .char c => .one (.char c)

/-- The characters and signs that an element of a pattern becomes. -/
def glyphs : LikeItem → List Glyph
  | .anyText => [.sign '.', .sign '*']
  | .anyChar => [.sign '.']
  | .char c => [.char c]

end LikeItem

theorem likeParts_likeItems (p : List Char) : LikeParts p ((likeItems p).map LikeItem.node) := by
  fun_induction likeItems p with
  | case1 => exact .nil
  | case2 p ih => exact .anyText ih
  | case3 p _ ih => exact .anyChar ih
  | case4 => exact .lone
  | case5 e p _ _ ih => exact .escaped e ih
  | case6 c p hpercent hunderscore hbackslash ih =>
    exact .plain c ⟨hpercent, hunderscore, hbackslash⟩ ih

theorem glyphs_cons (hc : c ≠ '\\') (rest : List Char) : Regex.glyphs (c :: rest) =
    (Regex.glyphs rest).map ((if isSign c then .sign c else .char c) :: ·) := by
  rw [Regex.glyphs.eq_def]
  split <;> simp_all

theorem glyphs_backslash (c : Char) (rest : List Char) : Regex.glyphs ('\\' :: c :: rest) =
    if c.isAlphanum then none else (Regex.glyphs rest).map (.char c :: ·) := by
  rw [Regex.glyphs]

theorem isAlphanum_of_isRegexSign (h : isRegexSign c = true) : c.isAlphanum = false := by
  have hall : "\\.+*?()|[]\x7b\x7d^$#&-~".toList.all (fun c => !c.isAlphanum) = true := by decide
  simpa using all_eq_true.mp hall c (by simpa [isRegexSign] using h)

/-- What is written without a backslash is neither a backslash nor a sign. -/
theorem isSign_of_not_isRegexSign (h : isRegexSign c = false) : c ≠ '\\' ∧ isSign c = false := by
  have hall : "^$.[|()?*+\x7b".toList.all isRegexSign = true := by decide
  refine ⟨?_, ?_⟩
  · rintro rfl
    exact absurd h (by decide)
  · cases hsign : isSign c with
    | false => rfl
    | true =>
      have hmem : c ∈ "^$.[|()?*+\x7b".toList := by simpa [isSign] using hsign
      exact absurd (all_eq_true.mp hall c hmem) (by simp [h])

/-- An element of a pattern is written so that it is read apart from what follows. -/
theorem LikeItem.glyphs_regex (item : LikeItem) (rest : List Char) :
    Regex.glyphs (item.regex ++ rest) = (Regex.glyphs rest).map (item.glyphs ++ ·) := by
  cases item with
  | anyText =>
    show Regex.glyphs ('.' :: '*' :: rest) = _
    rw [glyphs_cons (by decide), glyphs_cons (by decide), Option.map_map]
    rfl
  | anyChar =>
    show Regex.glyphs ('.' :: rest) = _
    rw [glyphs_cons (by decide)]
    rfl
  | char c =>
    rw [LikeItem.regex]
    cases hsign : isRegexSign c with
    | true =>
      show Regex.glyphs ('\\' :: c :: rest) = _
      rw [glyphs_backslash, isAlphanum_of_isRegexSign hsign]
      rfl
    | false =>
      obtain ⟨hbackslash, hplain⟩ := isSign_of_not_isRegexSign hsign
      show Regex.glyphs (c :: rest) = _
      rw [glyphs_cons hbackslash, hplain]
      rfl

theorem nodes_star {g : Glyph} {a : Atom} (hg : g.node? = some (.one a))
    (h : quantifies rest = false) :
    Regex.nodes (g :: .sign '*' :: rest) = (Regex.nodes rest).map (.many a :: ·) := by
  rw [Regex.nodes, hg]
  simp [h]

theorem nodes_cons {g : Glyph} {n : Node} (hg : g.node? = some n) (h : quantifies rest = false) :
    Regex.nodes (g :: rest) = (Regex.nodes rest).map (n :: ·) := by
  rw [Regex.nodes, hg]
  · simp [h]
  · rintro rest' rfl
    simp [quantifies] at h

theorem LikeItem.nodes_glyphs (item : LikeItem) (h : quantifies rest = false) :
    Regex.nodes (item.glyphs ++ rest) = (Regex.nodes rest).map (item.node :: ·) := by
  cases item with
  | anyText => exact nodes_star rfl h
  | anyChar => exact nodes_cons rfl h
  | char c => exact nodes_cons rfl h

/-- No element starts with a quantifier, so none is taken for one of the element before it. -/
theorem quantifies_glyphs (items : List LikeItem) :
    quantifies (items.flatMap LikeItem.glyphs ++ [.sign '$']) = false := by
  cases items with
  | nil => decide
  | cons item items =>
    cases item with
    | anyText => rfl
    | anyChar => rfl
    | char c => rfl

theorem glyphs_items (items : List LikeItem) :
    Regex.glyphs (items.flatMap LikeItem.regex ++ ['$']) =
      some (items.flatMap LikeItem.glyphs ++ [.sign '$']) := by
  induction items with
  | nil => rfl
  | cons item items ih => simp [item.glyphs_regex, ih]

theorem nodes_items (items : List LikeItem) :
    Regex.nodes (items.flatMap LikeItem.glyphs ++ [.sign '$']) =
      some (items.map LikeItem.node ++ [.finish]) := by
  induction items with
  | nil => rfl
  | cons item items ih =>
    rw [flatMap_cons, append_assoc, item.nodes_glyphs (quantifies_glyphs items), ih]
    rfl

/-- The expression of a pattern is read as the parts of the pattern between two anchors. -/
theorem read?_likeRegex (p : String) : Regex.read? (likeRegex p) =
    some (.start :: ((likeItems p.toList).map LikeItem.node ++ [.finish])) := by
  rw [likeRegex, Regex.read?, String.toList_ofList, glyphs_cons (by decide), glyphs_items]
  show Regex.nodes (.sign '^' :: (_ ++ [.sign '$'])) = _
  rw [nodes_cons rfl (quantifies_glyphs _), nodes_items]
  rfl

/-! ### Searching with the expression of a pattern -/

namespace Regex

variable {newline : Char → Bool} {p : List Char} {ns : List Node}
variable {Q : List Char → Prop} {first : Bool}

/-- A star after a dot takes any text of one line. -/
theorem takeMany_any {go : Bool → List Char → Bool}
    (hgo : ∀ first s, (∀ c ∈ s, newline c = false) → (go first s = true ↔ Q s)) (first : Bool)
    (hs : ∀ c ∈ s, newline c = false) :
    takeMany newline .any go first s = true ↔ ∃ text rest, s = text ++ rest ∧ Q rest := by
  induction s generalizing first with
  | nil =>
    rw [takeMany, hgo first [] hs]
    constructor
    · exact fun h => ⟨[], [], rfl, h⟩
    · rintro ⟨text, rest, heq, h⟩
      exact (append_eq_nil_iff.mp heq.symm).2 ▸ h
  | cons c s ih =>
    obtain ⟨hc, hrest⟩ := forall_mem_cons.mp hs
    have haccepts : Atom.any.accepts newline c = true := by simp [Atom.accepts, hc]
    rw [takeMany, haccepts, Bool.true_and, Bool.or_eq_true, ih false hrest, hgo first _ hs]
    constructor
    · rintro (⟨text, rest, rfl, h⟩ | h)
      · exact ⟨c :: text, rest, rfl, h⟩
      · exact ⟨[], c :: s, rfl, h⟩
    · rintro ⟨text, rest, heq, h⟩
      cases text with
      | nil => exact .inr (heq ▸ h)
      | cons d text =>
        obtain ⟨-, rfl⟩ := cons.inj heq
        exact .inl ⟨text, rest, rfl, h⟩

section

variable (hns : ∀ s, (∀ c ∈ s, newline c = false) → (matchesHere newline ns false s = true ↔ Q s))
  (hs : ∀ c ∈ s, newline c = false)
include hns hs

/-- A part for one character takes the first one. -/
theorem matchesHere_one {a : Atom} : matchesHere newline (.one a :: ns) first s = true ↔
      ∃ c rest, s = c :: rest ∧ a.accepts newline c = true ∧ Q rest := by
  cases s with
  | nil => simp [matchesHere]
  | cons c s =>
    rw [matchesHere, Bool.and_eq_true, hns s (forall_mem_cons.mp hs).2]
    constructor
    · exact fun h => ⟨c, s, rfl, h⟩
    · rintro ⟨c, rest, ⟨⟩, h⟩
      exact h

theorem matchesHere_any :
    matchesHere newline (.one .any :: ns) first s = true ↔ ∃ c rest, s = c :: rest ∧ Q rest := by
  rw [matchesHere_one hns hs]
  constructor
  · rintro ⟨c, rest, hcons, -, h⟩
    exact ⟨c, rest, hcons, h⟩
  · rintro ⟨c, rest, rfl, h⟩
    exact ⟨c, rest, rfl, by simp [Atom.accepts, hs c mem_cons_self], h⟩

theorem matchesHere_char :
    matchesHere newline (.one (.char c) :: ns) first s = true ↔ ∃ rest, s = c :: rest ∧ Q rest := by
  rw [matchesHere_one hns hs]
  constructor
  · rintro ⟨d, rest, rfl, hd, h⟩
    exact ⟨rest, by rw [beq_iff_eq.mp hd], h⟩
  · rintro ⟨rest, rfl, h⟩
    exact ⟨c, rest, rfl, beq_self_eq_true c, h⟩

end

theorem matchesHere_finish (first : Bool) (hs : ∀ c ∈ s, newline c = false) :
    matchesHere newline [.finish] first s = true ↔ s = [] := by
  rcases s with _ | ⟨c, _ | ⟨d, s⟩⟩
  · simp [matchesHere, atEnd]
  · simp [matchesHere, atEnd, hs c mem_cons_self]
  · simp [matchesHere, atEnd]

/-- The parts of a pattern match up to the end of a text of one line exactly if the pattern matches
it. -/
theorem matchesHere_parts (h : LikeParts p ns) (first : Bool) (s : List Char)
    (hs : ∀ c ∈ s, newline c = false) :
    matchesHere newline (ns ++ [.finish]) first s = true ↔ Like p s := by
  induction h generalizing first s with
  | nil => rw [Like.nil_iff, nil_append, matchesHere_finish first hs]
  | anyText h ih => rw [Like.percent_iff, cons_append, matchesHere, takeMany_any ih first hs]
  | anyChar h ih => rw [Like.underscore_iff, cons_append, matchesHere_any (ih false) hs]
  | escaped c h ih => rw [Like.escaped_iff, cons_append, matchesHere_char (ih false) hs]
  | lone => rw [Like.lone_iff, nil_append, matchesHere_finish first hs]
  | plain c hsign h ih =>
    rw [Like.plain_iff hsign, cons_append, matchesHere_char (ih false) hs]

theorem findsFrom_start (ns : List Node) (s : List Char) :
    findsFrom newline (.start :: ns) false s = false := by
  induction s with
  | nil => rfl
  | cons c s ih => simp [findsFrom, matchesHere, ih]

/-- An expression with a start anchor is found where it matches the whole text. -/
theorem finds_start (ns : List Node) (text : String) :
    finds newline (.start :: ns) text = matchesHere newline ns true text.toList := by
  rw [finds]
  cases text.toList with
  | nil => simp [findsFrom, matchesHere]
  | cons c s => simp [findsFrom, matchesHere, findsFrom_start]

end Regex

/-- **A pattern and its expression match the same texts.**  Every pattern that is a text has an
expression.  It is read as the parts of the pattern, in their order, between two anchors, and it is
found in a text of one line exactly if the pattern matches the text. -/
theorem likeRegex_matches {t : Term} {p : String} (h : t.constant? = some (.string p)) :
    ∃ text ns, t.likeRegex = .ok text ∧
      Regex.read? text = some (.start :: (ns ++ [.finish])) ∧ LikeParts p.toList ns ∧
      ∀ (newline : Char → Bool) (s : String), (∀ c ∈ s.toList, newline c = false) →
        (Regex.finds newline (.start :: (ns ++ [.finish])) s = true ↔ Like p.toList s.toList) := by
  have hparts := likeParts_likeItems p.toList
  refine ⟨likeRegex p, _, ?_, read?_likeRegex p, hparts, ?_⟩
  · rw [Term.likeRegex, h]
  · intro newline s hs
    rw [Regex.finds_start]
    exact Regex.matchesHere_parts hparts true s.toList hs

/-- An escaped percent sign stands for itself, and so does a dot. -/
theorem likeRegex_matches_percent :
    (Term.param 0 (.string "10\\%.%")).constant? = some (.string "10\\%.%") ∧
      (Term.param 0 (.string "10\\%.%")).likeRegex = .ok "^10%\\..*$" ∧
      Like "10\\%.%".toList "10%.50".toList ∧ ¬Like "10\\%.%".toList "10.50".toList := by
  have hregex : (Term.param 0 (.string "10\\%.%")).likeRegex = .ok "^10%\\..*$" :=
    congrArg Except.ok (by decide +kernel : DocSql.likeRegex "10\\%.%" = "^10%\\..*$")
  obtain ⟨text, ns, htext, hread, -, hfinds⟩ :=
    likeRegex_matches (t := .param 0 (.string "10\\%.%")) (p := "10\\%.%") rfl
  have hnodes : Regex.read? "^10%\\..*$" = some [.start, .one (.char '1'), .one (.char '0'),
      .one (.char '%'), .one (.char '.'), .many .any, .finish] := by decide
  have hlike (s : String) (hs : ∀ c ∈ s.toList, (c == '\n') = false) := hfinds (· == '\n') s hs
  rw [← Except.ok.inj (hregex.symm.trans htext)] at hread
  rw [Option.some.inj (hread.symm.trans hnodes)] at hlike
  refine ⟨rfl, hregex, (hlike "10%.50" (by simp)).mp (by decide), ?_⟩
  exact fun h => absurd ((hlike "10.50" (by simp)).mpr h) (by decide)

end DocSql
