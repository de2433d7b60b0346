import TreeQuery.Search.Chain

/-!
# The test that a predicate makes

A predicate becomes a test whose flags are counted from a base, and a selector becomes the chain of
the tests of its parts. The `has` predicate searches with the chain of its own selector, up to the
first find, within the same run.
-/

namespace TreeQuery

mutual

/-- Test a node; the flags of the predicate are counted from `base`. -/
def Predicate.test (tree : Tree) : Nat → Predicate → NodeId → Run → Bool × Run
  | _, .always, _, run => (true, run)
  | _, .tag name, node, run => (Text.sameIgnoringCase (tree.nodeName node) name, run)
  | _, .id value, node, run => (tree.id? node == some value, run)
  | _, .hasClass name, node, run => (tree.hasClass node name, run)
  | base, .all tests, node, run => testAll tree base tests node run
  | base, .not inner, node, run =>
    match inner.test tree base node run with
    | (answer, run) => (!answer, run)
  | base, .has selector, node, run =>
    match selector.stages tree base with
    | (stage, rest) =>
      match (Search.start tree node stage rest).next tree run with
      | (found, run) => (found.isSome, run)
  | base, .first _, _, run => run.ask base
  | _, .custom answer, node, run => (answer tree node, run.visit node)
termination_by structural _ predicate => predicate

/-- Make the tests in order, up to the first that fails. -/
def testAll (tree : Tree) : Nat → List Predicate → NodeId → Run → Bool × Run
  | _, [], _, run => (true, run)
  | base, test :: rest, node, run =>
    match test.test tree base node run with
    | (true, run) => testAll tree (base + test.flags.length) rest node run
    | (false, run) => (false, run)
termination_by structural _ tests => tests

/-- The stage of a part. -/
def Part.stage (tree : Tree) : Nat → Part → Stage
  | base, ⟨depth, predicate⟩ => ⟨depth, predicate.test tree base⟩
termination_by structural _ part => part

/-- The stages of a list of parts. -/
def stagesOf (tree : Tree) : Nat → List Part → List Stage
  | _, [] => []
  | base, part :: rest => part.stage tree base :: stagesOf tree (base + part.flags.length) rest
termination_by structural _ parts => parts

/-- The first stage of a selector and those behind it. -/
def Selector.stages (tree : Tree) : Nat → Selector → Stage × List Stage
  | base, ⟨head, rest⟩ => (head.stage tree base, stagesOf tree (base + head.flags.length) rest)
termination_by structural _ selector => selector

end

/-- The search for a selector below a node; the flags of the selector are counted from `base`. -/
def Selector.search (selector : Selector) (tree : Tree) (base : Nat) (node : NodeId) : Search :=
  match selector.stages tree base with
  | (stage, rest) => .start tree node stage rest

end TreeQuery
