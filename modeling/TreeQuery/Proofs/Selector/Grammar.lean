import Mathlib.Data.List.Infix
import TreeQuery.Text.Ascii
import TreeQuery.Text.Blank
import TreeQuery.Selector.Basic

/-!
# The grammar of selector text

What a selector text is and what it denotes, said without any reader. A text is a run of compounds,
apart by ASCII blanks or by the `>` of the later one; a compound is an optional `>` with all blanks
behind it, an optional `*` or tag, and a run of tests; a test is `#id`, `.class`, `:first`,
`:first(..)`, `:not(..)` or `:has(..)`. Identifiers are maximal, parentheses are balanced, and what
stands between those of `not` and `has` is a selector text again, up to blanks around it. A compound
denotes the conjunction of all its tests, the one for its tag before the others.

The relations go through a text from left to right: they say what a piece of the text denotes and
which rest it leaves.
-/

namespace TreeQuery.Grammar

/-- A maximal identifier in front of a rest. -/
structure Name (name rest : List Char) : Prop where
  ne_nil : name ≠ []
  all : ∀ c ∈ name, Text.isIdentifierChar c = true
  maximal : ∀ c ∈ rest.head?, Text.isIdentifierChar c = false

/-- Parentheses that are balanced, with at most so many open at once. -/
structure Balanced (limit : Nat) (raw : List Char) : Prop where
  equal : raw.count '(' = raw.count ')'
  opened : ∀ front, front <+: raw → front.count ')' ≤ front.count '('
  nested : ∀ front, front <+: raw → front.count '(' ≤ front.count ')' + limit

/-- All tests of a list as one predicate. Without a test it holds everywhere, a single test stands for
itself, and several make one flat conjunction, in their order. -/
def conjunction : List Predicate → Predicate
  | [] => .always
  | [test] => test
  | tests => .all tests

section

-- what the texts between parentheses denote
variable (Inner : List Char → Selector → Prop)

/-- One test, its predicate, and the rest of the text. The parentheses of a parameter count among the 32
that may be open at once. -/
inductive Test : List Char → Predicate → List Char → Prop
  | id {name rest : List Char} (hname : Name name rest) :
      Test ('#' :: (name ++ rest)) (.id (.ofList name)) rest
  | hasClass {name rest : List Char} (hname : Name name rest) :
      Test ('.' :: (name ++ rest)) (.hasClass (.ofList name)) rest
  | first {rest : List Char} (hname : Name "first".toList rest) (hopen : ∀ c ∈ rest.head?, c ≠ '(') :
      Test (':' :: ("first".toList ++ rest)) (.first false) rest
  | firstOf {raw rest : List Char} (hraw : Balanced 31 raw) :
      Test (':' :: ("first".toList ++ '(' :: (raw ++ ')' :: rest))) (.first false) rest
  | not {raw rest : List Char} {inner : Predicate} (hraw : Balanced 31 raw)
      (hinner : Inner raw (.simple inner)) :
      Test (':' :: ("not".toList ++ '(' :: (raw ++ ')' :: rest))) (.not inner) rest
  | has {raw rest : List Char} {inner : Selector} (hraw : Balanced 31 raw) (hinner : Inner raw inner) :
      Test (':' :: ("has".toList ++ '(' :: (raw ++ ')' :: rest))) (.has inner) rest

/-- Any number of tests, with their predicates in order. -/
inductive Tests : List Char → List Predicate → List Char → Prop
  | done (rest : List Char) : Tests rest [] rest
  | more {predicate : Predicate} {predicates : List Predicate} {text middle rest : List Char}
      (first : Test Inner text predicate middle) (others : Tests middle predicates rest) :
      Tests text (predicate :: predicates) rest

/-- A compound behind its `>`: an optional `*` or tag, and tests. A tag is a test as well, whose name is in
lower case, and `*` is none. -/
inductive Body : List Char → List Predicate → List Char → Prop
  | any {text rest : List Char} {predicates : List Predicate} (tests : Tests Inner text predicates rest) :
      Body ('*' :: text) predicates rest
  | tag {name text rest : List Char} {predicates : List Predicate} (hname : Name name text)
      (tests : Tests Inner text predicates rest) :
      Body (name ++ text) (.tag (.ofList (name.map Char.toLower)) :: predicates) rest
  | bare {text rest : List Char} {predicates : List Predicate} (tests : Tests Inner text predicates rest) :
      Body text predicates rest

/-- A compound, which is the conjunction of its tests. Behind `>` it may be empty at the end of the text
and before another `>`. -/
inductive Compound : List Char → Part → List Char → Prop
  | child {blanks text rest : List Char} {predicates : List Predicate}
      (hblanks : ∀ c ∈ blanks, Text.isAsciiBlank c = true)
      (hall : ∀ c ∈ text.head?, Text.isAsciiBlank c = false) (body : Body Inner text predicates rest)
      (hempty : text = rest → ∀ c ∈ rest.head?, c = '>') :
      Compound ('>' :: (blanks ++ text)) ⟨some 1, conjunction predicates⟩ rest
  | plain {text rest : List Char} {predicates : List Predicate} (body : Body Inner text predicates rest)
      (hempty : text ≠ rest) : Compound text ⟨none, conjunction predicates⟩ rest

/-- A run of compounds. Between two of them stand blanks, which `>` may take the place of. -/
inductive Compounds : List Char → List Part → Prop
  | last {text : List Char} {part : Part} (compound : Compound Inner text part []) :
      Compounds text [part]
  | blanks {text blanks next : List Char} {part : Part} {parts : List Part}
      (compound : Compound Inner text part (blanks ++ next)) (hne : blanks ≠ [])
      (hblanks : ∀ c ∈ blanks, Text.isAsciiBlank c = true) (others : Compounds next parts) :
      Compounds text (part :: parts)
  | child {text next : List Char} {part : Part} {parts : List Part}
      (compound : Compound Inner text part ('>' :: next)) (others : Compounds ('>' :: next) parts) :
      Compounds text (part :: parts)

end

/-- What a text denotes: the selector whose parts its compounds denote, once the blanks around it are
taken away. -/
inductive Denotes : List Char → Selector → Prop
  | intro {text : List Char} {selector : Selector}
      (compounds : Compounds Denotes (Text.trimChars text) selector.parts) : Denotes text selector

end TreeQuery.Grammar
