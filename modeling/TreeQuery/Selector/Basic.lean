import TreeQuery.Tree.Navigation

/-!
# Selectors

A selector is a chain of parts. Each part has a bound on how far below the match of the part before
it it may look, and a predicate that a node there has to satisfy. A predicate is a test of one node;
through `has` it can hold a selector of its own.

A `first` predicate carries a flag that says whether it has answered yes before. The flags of a
selector are counted from left to right, through every nesting, and that count is how a running
search names them: `flags` lists them, and `withFlags` writes them back.
-/

namespace TreeQuery

mutual

/-- A test of one node. -/
inductive Predicate where
  /-- Holds of every node. -/
  | always
  /-- Holds of the nodes of this name, up to the case of ASCII letters. -/
  | tag (name : String)
  /-- Holds of the elements with this `id`. -/
  | id (value : String)
  /-- Holds of the elements with this class token. -/
  | hasClass (name : String)
  /-- Holds where every test does; the tests are made in order, up to the first that fails. -/
  | all (tests : List Predicate)
  /-- Holds where the inner test fails. -/
  | not (test : Predicate)
  /-- Holds of the nodes below which the inner selector matches something. -/
  | has (selector : Selector)
  /-- Holds the first time it is asked, and never again. -/
  | first (fired : Bool)
  /-- A test given by the caller. -/
  | custom (test : Tree → NodeId → Bool)

/-- One part of a selector. -/
structure Part where
  /-- How many levels below the start the part may match; `none` is any number. -/
  depth : Option Nat
  predicate : Predicate

/-- A selector: its first part and the parts that continue below each match of the one before. -/
structure Selector where
  head : Part
  rest : List Part

end

namespace Predicate

/-- The test for a tag, whose name is kept in lower case. -/
def ofTag (name : String) : Predicate := .tag (Text.lower name)

/-- A test behind an earlier one, if there is an earlier one. A conjunction stays flat: it takes
the new test as its last. -/
def chain (earlier : Option Predicate) (test : Predicate) : Predicate :=
  match earlier with
  | none => test
  | some (.all tests) => .all (tests ++ [test])
  | some other => .all [other, test]

end Predicate

namespace Selector

/-- All parts of a selector, in order. -/
def parts (selector : Selector) : List Part := selector.head :: selector.rest

/-- The selector of one part without a bound. -/
def simple (predicate : Predicate) : Selector := ⟨⟨none, predicate⟩, []⟩

/-- Whether a selector is one part without a bound, so that it can test a node by itself. -/
def isSimple (selector : Selector) : Bool := selector.head.depth.isNone && selector.rest.isEmpty

end Selector

mutual

/-- The flags of a predicate, from left to right. -/
def Predicate.flags : Predicate → List Bool
  | .always => []
  | .tag _ => []
  | .id _ => []
  | .hasClass _ => []
  | .all tests => flagsOfTests tests
  | .not test => test.flags
  | .has selector => selector.flags
  | .first fired => [fired]
  | .custom _ => []
termination_by structural predicate => predicate

/-- The flags of a list of tests. -/
def flagsOfTests : List Predicate → List Bool
  | [] => []
  | test :: rest => test.flags ++ flagsOfTests rest
termination_by structural tests => tests

/-- The flags of a part. -/
def Part.flags : Part → List Bool
  | ⟨_, predicate⟩ => predicate.flags
termination_by structural part => part

/-- The flags of a list of parts. -/
def flagsOfParts : List Part → List Bool
  | [] => []
  | part :: rest => part.flags ++ flagsOfParts rest
termination_by structural parts => parts

/-- The flags of a selector, from left to right. -/
def Selector.flags : Selector → List Bool
  | ⟨head, rest⟩ => head.flags ++ flagsOfParts rest
termination_by structural selector => selector

end

mutual

/-- The predicate with the flags that `fired` gives; its own flags are counted from `base`. -/
def Predicate.withFlags (fired : Nat → Bool) : Nat → Predicate → Predicate
  | _, .always => .always
  | _, .tag name => .tag name
  | _, .id value => .id value
  | _, .hasClass name => .hasClass name
  | base, .all tests => .all (testsWithFlags fired base tests)
  | base, .not test => .not (test.withFlags fired base)
  | base, .has selector => .has (selector.withFlags fired base)
  | base, .first _ => .first (fired base)
  | _, .custom test => .custom test
termination_by structural _ predicate => predicate

/-- A list of tests with the flags that `fired` gives. -/
def testsWithFlags (fired : Nat → Bool) : Nat → List Predicate → List Predicate
  | _, [] => []
  | base, test :: rest =>
    test.withFlags fired base :: testsWithFlags fired (base + test.flags.length) rest
termination_by structural _ tests => tests

/-- A part with the flags that `fired` gives. -/
def Part.withFlags (fired : Nat → Bool) : Nat → Part → Part
  | base, ⟨depth, predicate⟩ => ⟨depth, predicate.withFlags fired base⟩
termination_by structural _ part => part

/-- A list of parts with the flags that `fired` gives. -/
def partsWithFlags (fired : Nat → Bool) : Nat → List Part → List Part
  | _, [] => []
  | base, part :: rest =>
    part.withFlags fired base :: partsWithFlags fired (base + part.flags.length) rest
termination_by structural _ parts => parts

/-- The selector with the flags that `fired` gives; its own flags are counted from `base`. -/
def Selector.withFlags (fired : Nat → Bool) : Nat → Selector → Selector
  | base, ⟨head, rest⟩ =>
    ⟨head.withFlags fired base, partsWithFlags fired (base + head.flags.length) rest⟩
termination_by structural _ selector => selector

end

end TreeQuery
