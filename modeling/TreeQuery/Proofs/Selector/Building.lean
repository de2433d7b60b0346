import TreeQuery.Proofs.Selector.Pieces

/-!
# What predicates are built of

The predicates that a text denotes are built in a few ways: there are the simple ones, those that hold what
a parameter denotes, and conjunctions of them. A property that each of these ways keeps is one of
everything that is built.

Main statement: such a property is one of the predicate of every part that compounds denote.
-/

namespace TreeQuery.Grammar

/-- A property of predicates that every way keeps in which a text builds them, with what its parameters
denote. -/
structure Builds (Inner : List Char → Selector → Prop) (holds : Predicate → Prop) : Prop where
  always : holds .always
  tag (name : String) : holds (.tag name)
  id (value : String) : holds (.id value)
  hasClass (name : String) : holds (.hasClass name)
  first : holds (.first false)
  not {raw : List Char} {inner : Predicate} (hinner : Inner raw (.simple inner)) : holds (.not inner)
  has {raw : List Char} {inner : Selector} (hinner : Inner raw inner) : holds (.has inner)
  all {tests : List Predicate} (h : ∀ test ∈ tests, holds test) : holds (.all tests)

variable {Inner : List Char → Selector → Prop} {holds : Predicate → Prop}

/-- A test is built. -/
theorem Test.builds {text rest : List Char} {predicate : Predicate} (h : Test Inner text predicate rest)
    (hbuilds : Builds Inner holds) : holds predicate := by
  cases h with
  | id hname => exact hbuilds.id _
  | hasClass hname => exact hbuilds.hasClass _
  | first hname hopen => exact hbuilds.first
  | firstOf hraw => exact hbuilds.first
  | not hraw hinner => exact hbuilds.not hinner
  | has hraw hinner => exact hbuilds.has hinner

/-- A run of tests is built, test by test. -/
theorem Tests.builds {text rest : List Char} {predicates : List Predicate}
    (h : Tests Inner text predicates rest) (hbuilds : Builds Inner holds) :
    ∀ predicate ∈ predicates, holds predicate := by
  induction h with
  | done rest => exact List.forall_mem_nil _
  | more first others ih => exact List.forall_mem_cons.mpr ⟨first.builds hbuilds, ih⟩

/-- The tests of a compound are built. -/
theorem Body.builds {text rest : List Char} {predicates : List Predicate}
    (h : Body Inner text predicates rest) (hbuilds : Builds Inner holds) :
    ∀ predicate ∈ predicates, holds predicate := by
  cases h with
  | any tests => exact tests.builds hbuilds
  | tag hname tests => exact List.forall_mem_cons.mpr ⟨hbuilds.tag _, tests.builds hbuilds⟩
  | bare tests => exact tests.builds hbuilds

/-- The conjunction of what is built is built. -/
theorem Builds.conjunction (h : Builds Inner holds) {tests : List Predicate}
    (htests : ∀ test ∈ tests, holds test) : holds (conjunction tests) := by
  match tests with
  | [] => exact h.always
  | [test] => exact htests test List.mem_cons_self
  | first :: second :: rest => exact h.all htests

/-- The predicate of a compound is built. -/
theorem Compound.builds {text rest : List Char} {part : Part} (h : Compound Inner text part rest)
    (hbuilds : Builds Inner holds) : holds part.predicate := by
  cases h with
  | child hblanks hall body hempty => exact hbuilds.conjunction (body.builds hbuilds)
  | plain body hempty => exact hbuilds.conjunction (body.builds hbuilds)

/-- The predicates of a run of compounds are built. -/
theorem Compounds.builds {text : List Char} {parts : List Part} (h : Compounds Inner text parts)
    (hbuilds : Builds Inner holds) : ∀ part ∈ parts, holds part.predicate := by
  induction h with
  | last compound => exact List.forall_mem_singleton.mpr (compound.builds hbuilds)
  | blanks compound hne hblanks others ih => exact List.forall_mem_cons.mpr ⟨compound.builds hbuilds, ih⟩
  | child compound others ih => exact List.forall_mem_cons.mpr ⟨compound.builds hbuilds, ih⟩

end TreeQuery.Grammar
